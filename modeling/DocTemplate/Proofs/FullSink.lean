import DocTemplate.Proofs.Replay

/-!
# Pages on a sink that runs full

A sink with room for some bytes takes what fits and refuses the rest.  What is
on it in the end is the front of the page that a sink without a limit takes,
although the two pages do not go the same way: a page that could not be opened
refuses the calls behind, and one that could not be closed takes more of them.
The reason is that the two part only when the sink is full, and on a full sink
no call leaves a trace.  Nor does it matter into how many pieces a call cuts
its text, as long as it stops at the first that is refused.
-/

namespace DocTemplate

/-! ## Writing in pieces -/

/-- Writes texts one after the other, up to the first that fails. -/
def Sink.writeEach {ω : Type} [Sink ω] (sink : ω) (texts : List String) :
    Outcome String ω :=
  Outcome.fold Sink.write sink texts

theorem Text.encode_append (first second : String) :
    encode (first ++ second) = encode first ++ encode second := by
  simp [encode]

namespace BoundedBuffer

variable (buffer : BoundedBuffer)

theorem write_of_le {text : String}
    (h : (Text.encode text).length ≤ buffer.room) :
    buffer.write text =
      ⟨{ buffer with bytes := buffer.bytes ++ Text.encode text }, none⟩ := by
  simp only [write, if_pos h, List.take_of_length_le h]

theorem write_of_lt {text : String}
    (h : buffer.room < (Text.encode text).length) :
    buffer.write text =
      .fail { buffer with
          bytes := buffer.bytes ++ (Text.encode text).take buffer.room }
        "write limit reached" := by
  simp only [write, if_neg (Nat.not_le.mpr h)]

/-- Two texts are written like one. -/
theorem write_andThen (first second : String) :
    (buffer.write first).andThen (fun next => next.write second) =
      buffer.write (first ++ second) := by
  have hlength : (Text.encode (first ++ second)).length =
      (Text.encode first).length + (Text.encode second).length := by
    rw [Text.encode_append, List.length_append]
  by_cases hfirst : (Text.encode first).length ≤ buffer.room
  · rw [write_of_le buffer hfirst, Outcome.andThen_ok]
    -- What is left of the room is the room for the second text.
    have hroom : ({ buffer with
        bytes := buffer.bytes ++ Text.encode first } : BoundedBuffer).room =
        buffer.room - (Text.encode first).length := by
      simp only [room, List.length_append]
      omega
    by_cases hsecond : (Text.encode second).length ≤
        buffer.room - (Text.encode first).length
    · have hboth : (Text.encode (first ++ second)).length ≤ buffer.room := by
        omega
      rw [write_of_le _ (hroom ▸ hsecond), write_of_le buffer hboth,
        Text.encode_append, List.append_assoc]
    · have hboth : buffer.room < (Text.encode (first ++ second)).length := by
        omega
      rw [write_of_lt _ (hroom ▸ Nat.not_le.mp hsecond), hroom,
        write_of_lt buffer hboth, Text.encode_append, List.take_append,
        List.take_of_length_le hfirst, List.append_assoc]
  · have hover : buffer.room < (Text.encode first).length :=
      Nat.not_le.mp hfirst
    have hboth : buffer.room < (Text.encode (first ++ second)).length := by
      omega
    rw [write_of_lt buffer hover, write_of_lt buffer hboth,
      Text.encode_append, List.take_append_of_le_length (Nat.le_of_lt hover)]
    rfl

/-- Pieces are written like the text that they make up. -/
theorem writeEach_eq (pieces : List String) :
    Sink.writeEach buffer pieces = buffer.write (String.join pieces) := by
  induction pieces generalizing buffer with
  | nil =>
      rw [write_of_le buffer (Nat.zero_le _)]
      simp [Sink.writeEach, Outcome.fold, Text.encode]
  | cons first rest ih =>
      rw [String.join_cons, ← write_andThen]
      exact congrArg (Outcome.andThen _) (funext fun next => ih next)

end BoundedBuffer

namespace HtmlRenderer

/-! ## One call -/

theorem eq_openDocument_of_opensAfter {isOpen : Bool} {call : RenderCall}
    (hbefore : isOpen = false) (hafter : opensAfter isOpen call = true) :
    call = .openDocument := by
  subst hbefore
  cases call <;> first | rfl | cases hafter

theorem eq_closeDocument_of_opensAfter {isOpen : Bool} {call : RenderCall}
    (hbefore : isOpen = true) (hafter : opensAfter isOpen call = false) :
    call = .closeDocument := by
  subst hbefore
  cases call <;> first | rfl | cases hafter

section

variable (options : Html.PageOptions) (isOpen : Bool) (call : RenderCall)

/-- The bytes that a call hands to its sink. -/
def handed : List UInt8 :=
  match Html.callText options isOpen call with
  | .ok text => Text.encode text
  | .error _ => []

/-- Whether the page is open behind a call that loses nothing. -/
def opensBy : Bool :=
  match Html.callText options isOpen call with
  | .ok _ => opensAfter isOpen call
  | .error _ => isOpen

end

/-- What a call comes to on a sink with room for some bytes.  Either the call
is out of place and hands nothing to the sink, or all that it hands over fits,
or the sink runs full. -/
inductive Ends (renderer : HtmlRenderer BoundedBuffer) (call : RenderCall) :
    Outcome RenderError (HtmlRenderer BoundedBuffer) → Prop
  | refused (error : RenderError)
      (htext : Html.callText renderer.options renderer.isOpen call =
        .error error) :
      Ends renderer call (.fail renderer error)
  | taken (text : String)
      (htext : Html.callText renderer.options renderer.isOpen call = .ok text)
      (hroom : (Text.encode text).length ≤ renderer.sink.room) :
      Ends renderer call
        ⟨{ renderer with
            sink := { renderer.sink with
              bytes := renderer.sink.bytes ++ Text.encode text }
            isOpen := opensAfter renderer.isOpen call }, none⟩
  | cut (text : String)
      (htext : Html.callText renderer.options renderer.isOpen call = .ok text)
      (hroom : renderer.sink.room < (Text.encode text).length) :
      Ends renderer call
        (.fail { renderer with
            sink := { renderer.sink with
              bytes := renderer.sink.bytes ++
                (Text.encode text).take renderer.sink.room } }
          (.io "write limit reached"))

section

variable (renderer : HtmlRenderer BoundedBuffer) (call : RenderCall)

theorem ends : Ends renderer call (Renderer.perform renderer call) := by
  simp only [Renderer.perform, perform]
  cases htext : Html.callText renderer.options renderer.isOpen call with
  | error error => exact .refused error htext
  | ok text =>
      have hwrite : Sink.write renderer.sink text =
          renderer.sink.write text := rfl
      by_cases hroom : (Text.encode text).length ≤ renderer.sink.room
      · simp only [hwrite, BoundedBuffer.write_of_le _ hroom]
        exact .taken text htext hroom
      · have hover := Nat.not_le.mp hroom
        simp only [hwrite, BoundedBuffer.write_of_lt _ hover]
        exact .cut text htext hover

theorem sink_perform :
    (Renderer.perform renderer call).state.sink =
      { renderer.sink with
        bytes := renderer.sink.bytes ++
          (handed renderer.options renderer.isOpen call).take
            renderer.sink.room } := by
  have hends := ends renderer call
  generalize Renderer.perform renderer call = outcome at hends ⊢
  cases hends with
  | refused error htext => simp [handed, htext, Outcome.fail]
  | taken text htext hroom =>
      simp [handed, htext, List.take_of_length_le hroom]
  | cut text htext hroom => simp [handed, htext, Outcome.fail]

theorem options_perform :
    (Renderer.perform renderer call).state.options = renderer.options := by
  have hends := ends renderer call
  generalize Renderer.perform renderer call = outcome at hends ⊢
  cases hends <;> rfl

variable {renderer call}

theorem isOpen_of_fits
    (hfits : (handed renderer.options renderer.isOpen call).length ≤
      renderer.sink.room) :
    (Renderer.perform renderer call).state.isOpen =
      opensBy renderer.options renderer.isOpen call := by
  have hends := ends renderer call
  generalize Renderer.perform renderer call = outcome at hends ⊢
  cases hends with
  | refused error htext => simp [opensBy, htext, Outcome.fail]
  | taken text htext hroom => simp [opensBy, htext]
  | cut text htext hroom =>
      simp only [handed, htext] at hfits
      omega

theorem isOpen_of_failure
    (hfailed : (Renderer.perform renderer call).failure? ≠ none) :
    (Renderer.perform renderer call).state.isOpen = renderer.isOpen := by
  have hends := ends renderer call
  generalize Renderer.perform renderer call = outcome at hends hfailed ⊢
  cases hends with
  | taken text htext hroom => exact absurd rfl hfailed
  | refused error htext => rfl
  | cut text htext hroom => rfl

end

/-- On a sink without a limit nothing that is handed over is lost. -/
theorem perform_buffer (renderer : HtmlRenderer Buffer) (call : RenderCall) :
    let after := (Renderer.perform renderer call).state
    after.options = renderer.options ∧
      Text.encode after.sink.text =
        Text.encode renderer.sink.text ++
          handed renderer.options renderer.isOpen call ∧
      after.isOpen = opensBy renderer.options renderer.isOpen call := by
  cases htext : Html.callText renderer.options renderer.isOpen call with
  | error error =>
      have hperform : Renderer.perform renderer call =
          .fail renderer error := by
        simp only [Renderer.perform, perform, htext]
      simp [hperform, handed, opensBy, htext, Outcome.fail]
  | ok text =>
      rw [perform_eq htext]
      simp [handed, opensBy, htext, Text.encode_append]

/-! ## All calls -/

/-- A page on a sink with a limit beside the same page on one without.  As
long as there is room they stand at the same place. -/
structure InPace (options : Html.PageOptions) (limit : Nat)
    (bounded : HtmlRenderer BoundedBuffer) (free : HtmlRenderer Buffer) :
    Prop where
  bounded_options : bounded.options = options
  free_options : free.options = options
  limit_eq : bounded.sink.limit = limit
  bytes_eq : bounded.sink.bytes = (Text.encode free.sink.text).take limit
  isOpen_eq : (Text.encode free.sink.text).length < limit →
    bounded.isOpen = free.isOpen

namespace InPace

variable {options : Html.PageOptions} {limit : Nat}
  {bounded : HtmlRenderer BoundedBuffer} {free : HtmlRenderer Buffer}

theorem room_eq (h : InPace options limit bounded free) :
    bounded.sink.room = limit - (Text.encode free.sink.text).length := by
  rw [BoundedBuffer.room, h.limit_eq, h.bytes_eq, List.length_take]
  omega

/-- Both pages get the same as far as there is room. -/
theorem take_handed (h : InPace options limit bounded free) (call : RenderCall) :
    (handed bounded.options bounded.isOpen call).take bounded.sink.room =
      (handed free.options free.isOpen call).take bounded.sink.room := by
  by_cases hroom : (Text.encode free.sink.text).length < limit
  · rw [h.bounded_options, h.free_options, h.isOpen_eq hroom]
  · have hfull : bounded.sink.room = 0 := by
      rw [h.room_eq]
      omega
    rw [hfull, List.take_zero, List.take_zero]

theorem perform (h : InPace options limit bounded free) (call : RenderCall) :
    InPace options limit (Renderer.perform bounded call).state
      (Renderer.perform free call).state := by
  obtain ⟨hoptions, hbytes, hopen⟩ := perform_buffer free call
  refine ⟨?_, ?_, ?_, ?_, ?_⟩
  · rw [options_perform, h.bounded_options]
  · rw [hoptions, h.free_options]
  · rw [sink_perform]
    exact h.limit_eq
  · rw [sink_perform, hbytes, List.take_append, h.take_handed, h.room_eq,
      h.bytes_eq]
  · intro hroom
    rw [hbytes, List.length_append] at hroom
    -- Room behind the call means room for all of it.
    have hbefore : (Text.encode free.sink.text).length < limit := by omega
    have hfits : (handed bounded.options bounded.isOpen call).length ≤
        bounded.sink.room := by
      rw [h.bounded_options, ← h.free_options, h.isOpen_eq hbefore, h.room_eq]
      omega
    rw [isOpen_of_fits hfits, hopen, h.bounded_options, h.free_options,
      h.isOpen_eq hbefore]

theorem performAll (h : InPace options limit bounded free)
    (calls : List RenderCall) :
    InPace options limit (Renderer.performAll bounded calls)
      (Renderer.performAll free calls) := by
  induction calls generalizing bounded free with
  | nil => exact h
  | cons call rest ih => exact ih (h.perform call)

end InPace

/-- Performs a call whose text is written in pieces. -/
def performCut {ω : Type} [Sink ω] (cut : String → List String)
    (renderer : HtmlRenderer ω) (call : RenderCall) :
    Outcome RenderError (HtmlRenderer ω) :=
  match Html.callText renderer.options renderer.isOpen call with
  | .error error => .fail renderer error
  | .ok text =>
      let written := Sink.writeEach renderer.sink (cut text)
      match written.failure? with
      | some cause =>
          .fail { renderer with sink := written.state } (.io cause)
      | none =>
          ⟨{ renderer with
              sink := written.state
              isOpen := opensAfter renderer.isOpen call }, none⟩

theorem performCut_eq {cut : String → List String}
    (hcut : ∀ text, String.join (cut text) = text)
    (renderer : HtmlRenderer BoundedBuffer) (call : RenderCall) :
    performCut cut renderer call = Renderer.perform renderer call := by
  unfold performCut
  simp only [BoundedBuffer.writeEach_eq, hcut]
  rfl

/-- A sink that runs full holds the front of the page, whatever the calls are
and wherever it is cut off.  A call that succeeds has had all its bytes taken,
also if it writes them in pieces, and only such a call opens or closes the
page. -/
theorem full_sink_holds_front (options : Html.PageOptions) (limit : Nat)
    (calls : List RenderCall) (call : RenderCall) :
    let bounded : HtmlRenderer BoundedBuffer := { options, sink := { limit } }
    let free : HtmlRenderer Buffer := { options, sink := {} }
    let renderer := Renderer.performAll bounded calls
    let outcome := Renderer.perform renderer call
    renderer.sink.bytes =
        (Text.encode (Renderer.performAll free calls).sink.text).take limit ∧
      (outcome.failure? = none → ∃ text,
        Html.callText options renderer.isOpen call = .ok text ∧
        outcome.state.sink.bytes =
          renderer.sink.bytes ++ Text.encode text) ∧
      (∀ cut, (∀ text, String.join (cut text) = text) →
        performCut cut renderer call = outcome) ∧
      (outcome.failure? ≠ none →
        outcome.state.isOpen = renderer.isOpen) ∧
      (renderer.isOpen = false → outcome.state.isOpen = true →
        call = .openDocument ∧ outcome.failure? = none) ∧
      (renderer.isOpen = true → outcome.state.isOpen = false →
        call = .closeDocument ∧ outcome.failure? = none) := by
  intro bounded free renderer outcome
  have hstart : InPace options limit bounded free :=
    ⟨rfl, rfl, rfl, by simp [bounded, free, Text.encode], fun _ => rfl⟩
  have hpace := hstart.performAll calls
  have hends : Ends renderer call outcome := ends renderer call
  refine ⟨hpace.bytes_eq, ?_, fun cut hcut => performCut_eq hcut renderer call,
    isOpen_of_failure, ?_, ?_⟩
  · intro hsucceeded
    generalize outcome = result at hends hsucceeded ⊢
    cases hends with
    | refused | cut => cases hsucceeded
    | taken text htext hroom =>
        rw [hpace.bounded_options] at htext
        exact ⟨text, htext, rfl⟩
  · intro hclosed hopen
    generalize outcome = result at hends hopen ⊢
    cases hends with
    | refused | cut => cases hclosed.symm.trans hopen
    | taken text htext hroom =>
        exact ⟨eq_openDocument_of_opensAfter hclosed hopen, rfl⟩
  · intro hopen hclosed
    generalize outcome = result at hends hclosed ⊢
    cases hends with
    | refused | cut => cases hopen.symm.trans hclosed
    | taken text htext hroom =>
        exact ⟨eq_closeDocument_of_opensAfter hopen hclosed, rfl⟩

end HtmlRenderer
end DocTemplate
