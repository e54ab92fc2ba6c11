import DocTemplate.CommandLine.Run
import Mathlib.Data.List.Basic

/-!
# What the compile command leaves behind

The command goes through a choice of a backend, two files and a rendering
before it decides whether to write, and each of these can end it.  None of
them writes anything.  So the command falls into two halves: an attempt to
render, which only looks at files, and the delivery of what was rendered,
which writes at most one file, and only if it succeeds.
-/

namespace DocTemplate
namespace CommandLine

/-! ## Looking at files -/

variable {σ : Type}

theorem run_bind {α β : Type} (action : StateM σ α) (next : α → StateM σ β)
    (state : σ) :
    (action >>= next).run state =
      (next (action.run state).1).run (action.run state).2 := rfl

/-- The action does not change the state that it runs in. -/
def LeavesState {α : Type} (action : StateM σ α) : Prop :=
  ∀ state, (action.run state).2 = state

namespace LeavesState

variable {α β : Type}

theorem pure (value : α) : LeavesState (Pure.pure value : StateM σ α) :=
  fun _ => rfl

theorem run_bind {action : StateM σ α} (haction : LeavesState action)
    (next : α → StateM σ β) (state : σ) :
    (action >>= next).run state =
      (next (action.run state).1).run state := by
  rw [CommandLine.run_bind, haction]

theorem bind {action : StateM σ α} {next : α → StateM σ β}
    (haction : LeavesState action)
    (hnext : ∀ value, LeavesState (next value)) :
    LeavesState (action >>= next) := by
  intro state
  rw [haction.run_bind]
  exact hnext _ state

end LeavesState

/-- Looking for a file and reading it change nothing. -/
structure FileAccess.Steady (files : FileAccess (StateM σ)) : Prop where
  isFile : ∀ path, LeavesState (files.isFile path)
  read : ∀ path, LeavesState (files.read path)

theorem Folder.steady_access : Folder.access.Steady where
  isFile _ _ := rfl
  read _ _ := rfl

theorem Folder.write_located {folder : Folder} {path : String} {place : Place}
    (hpath : path.toList.getLast? ≠ some '/')
    (hplace : folder.locate path = .ok place)
    (hfree : folder.isFolder place = false) (contents : String) :
    (Folder.access.write path contents).run folder =
      (.ok (), folder.put contents place) := by
  have hwrite : folder.write path contents =
      .ok (folder.put contents place) := by
    simp [Folder.write, hpath, hplace, ok_bind, hfree]
  have hseen : (get : StateM Folder Folder).run folder =
      (folder, folder) := rfl
  simp only [Folder.access, run_bind, hseen, hwrite]
  rfl

variable {files : FileAccess (StateM σ)}

theorem leavesState_readFile? (hsteady : files.Steady) (path : String) :
    LeavesState (readFile? files path) := by
  apply (hsteady.isFile path).bind
  intro found
  cases found with
  | false => exact .pure none
  | true => exact (hsteady.read path).bind fun _ => .pure _

theorem leavesState_readConfig (hsteady : files.Steady) (path : String) :
    LeavesState (readConfig files path) := by
  apply (leavesState_readFile? hsteady path).bind
  intro contents?
  cases contents? with
  | some contents => exact .pure _
  | none =>
      dsimp only
      cases alternativePath? path with
      | none => exact .pure none
      | some other => exact leavesState_readFile? hsteady other

theorem leavesState_loadConfiguration (hsteady : files.Steady)
    (path? : Option String) :
    LeavesState (loadConfiguration files path?) := by
  apply (leavesState_readConfig hsteady standardConfigPath).bind
  intro standard
  cases path? with
  | none => exact .pure _
  | some path =>
      exact (leavesState_readConfig hsteady path).bind fun _ => .pure _

theorem loadConfiguration_of_absent {state : σ}
    (habsent : ((readConfig files standardConfigPath).run state).1 = none) :
    ((loadConfiguration files none).run state).1 = .ok {} := by
  rw [loadConfiguration, run_bind, habsent]
  exact Configuration.load_absent

theorem leavesState_readData (hsteady : files.Steady)
    (path? : Option String) : LeavesState (readData files path?) := by
  cases path? with
  | none => exact .pure _
  | some path =>
      apply (hsteady.read path).bind
      intro contents
      cases contents with
      | error problem => exact .pure _
      | ok source => exact .pure _

/-! ## Choosing a backend -/

/-- The backends that there are, by their names. -/
inductive Registered (configuration : Configuration) :
    String → Backend → Prop
  | page : Registered configuration "html" (htmlBackend configuration.page)
  | stream :
      Registered configuration "blocks" (blocksBackend configuration.pretty)

/-- The name that a backend is asked for by: the given one, or else that of
the extension of the output file. -/
inductive AsksFor : Option String → Option String → String → Prop
  | named (name : String) (output? : Option String) :
      AsksFor (some name) output? name
  | page {path : String}
      (hpath : extension? path = some "html" ∨ extension? path = some "htm") :
      AsksFor none (some path) "html"
  | stream {path : String} (hpath : extension? path = some "json") :
      AsksFor none (some path) "blocks"

theorem entries_registryOf (configuration : Configuration) :
    (registryOf configuration).backends.entries =
      [("blocks", blocksBackend configuration.pretty),
        ("html", htmlBackend configuration.page)] := by
  have hbefore : "blocks" < "html" := by decide +kernel
  change Dictionary.place "blocks" (blocksBackend configuration.pretty)
    [("html", htmlBackend configuration.page)] = _
  simp only [Dictionary.place, hbefore, if_true]

theorem get_registryOf_eq_ok_iff {configuration : Configuration}
    {name : String} {backend : Backend} :
    (registryOf configuration).get name = .ok backend ↔
      Registered configuration name backend := by
  have hget : (registryOf configuration).backends.get? name =
      if name = "blocks" then some (blocksBackend configuration.pretty)
      else if name = "html" then some (htmlBackend configuration.page)
      else none := by
    rw [Dictionary.get?, entries_registryOf,
      Dictionary.lookup_cons_eq_ite, Dictionary.lookup_cons_eq_ite]
    rfl
  unfold Registry.get
  rw [hget]
  constructor
  · intro hok
    by_cases hblocks : name = "blocks"
    · subst hblocks
      cases hok
      exact .stream
    · rw [if_neg hblocks] at hok
      by_cases hpage : name = "html"
      · subst hpage
        cases hok
        exact .page
      · rw [if_neg hpage] at hok
        cases hok
  · rintro (_ | _) <;> rfl

theorem detect?_registryOf (configuration : Configuration) (path : String) :
    (registryOf configuration).detect? path =
      (extension? path).bind fun extension =>
        if extension = "json" then some (blocksBackend configuration.pretty)
        else if extension = "html" ∨ extension = "htm" then
          some (htmlBackend configuration.page)
        else none := by
  rw [Registry.detect?, entries_registryOf]
  congr 1
  funext extension
  by_cases hjson : extension = "json"
  · simp [blocksBackend, hjson]
  · by_cases hpage : extension = "html" ∨ extension = "htm"
    · rcases hpage with rfl | rfl <;> simp [blocksBackend, htmlBackend]
    · rw [not_or] at hpage
      simp [blocksBackend, htmlBackend, hjson, hpage]

theorem chooseBackend_detected {configuration : Configuration}
    {path name : String} :
    chooseBackend (registryOf configuration) none (some path) = .ok name ↔
      AsksFor none (some path) name := by
  simp only [chooseBackend, detect?_registryOf]
  cases hpath : extension? path with
  | none =>
      constructor
      · rintro ⟨⟩
      · rintro (_ | hfound | hfound) <;> simp [hpath] at hfound
  | some extension =>
      rw [Option.bind_some]
      by_cases hjson : extension = "json"
      · subst hjson
        constructor
        · rintro ⟨⟩
          exact .stream hpath
        · rintro (_ | hfound | hfound)
          · simp [hpath] at hfound
          · rfl
      by_cases hpage : extension = "html" ∨ extension = "htm"
      · rw [if_neg hjson, if_pos hpage]
        constructor
        · rintro ⟨⟩
          exact .page (by simpa [hpath] using hpage)
        · rintro (_ | hfound | hfound)
          · rfl
          · simp [hpath, hjson] at hfound
      · rw [if_neg hjson, if_neg hpage]
        constructor
        · rintro ⟨⟩
        · rintro (_ | hfound | hfound)
          · simp [hpath, hpage] at hfound
          · simp [hpath, hjson] at hfound

theorem chooseBackend_eq_ok_iff {configuration : Configuration}
    {name? output? : Option String} {name : String} :
    chooseBackend (registryOf configuration) name? output? = .ok name ↔
      AsksFor name? output? name := by
  cases name? with
  | some given =>
      constructor
      · rintro ⟨⟩
        exact .named _ _
      · rintro ⟨⟩
        rfl
  | none =>
      cases output? with
      | none => constructor <;> rintro ⟨⟩
      | some path => exact chooseBackend_detected

/-! ## Rendering -/

theorem backendOptions_eq_union (configuration : Configuration)
    (extras : BackendOptions) :
    backendOptions configuration extras =
      (Dictionary.empty.insert rootKey configuration.rootElement).union
        extras := by
  apply Dictionary.ext
  intro key
  rw [backendOptions, Dictionary.get?_union, Dictionary.get?_insert]
  cases hroot : extras.get? rootKey with
  | some root =>
      rw [if_pos (by simp [Dictionary.contains, hroot])]
      by_cases hkey : key = rootKey
      · rw [hkey, hroot, Option.some_or]
      · rw [if_neg hkey, Dictionary.get?_empty, Option.or_none]
  | none =>
      rw [if_neg (by simp [Dictionary.contains, hroot]),
        Dictionary.get?_insert]
      by_cases hkey : key = rootKey
      · rw [if_pos hkey, hkey, hroot, Option.none_or, if_pos rfl]
      · rw [if_neg hkey, if_neg hkey, Dictionary.get?_empty, Option.or_none]

/-- The data that a command has: without a data file none, and otherwise what
the file loads to. -/
def HasData (files : FileAccess (StateM σ)) (state : σ)
    (path? : Option String) (store : DataStore) : Prop :=
  match path? with
  | none => store = .empty
  | some path => ∃ text,
      ((files.read path).run state).1 = .ok text ∧
        DataStore.load text = .ok store

theorem readData_eq_ok_iff (hsteady : files.Steady) {state : σ}
    {path? : Option String} {store : DataStore} :
    ((readData files path?).run state).1 = .ok store ↔
      HasData files state path? store := by
  cases path? with
  | none =>
      constructor
      · rintro ⟨⟩
        rfl
      · rintro rfl
        rfl
  | some path =>
      rw [readData, (hsteady.read path).run_bind]
      simp only [HasData]
      cases ((files.read path).run state).1 with
      | error problem =>
          constructor
          · rintro ⟨⟩
          · rintro ⟨text, ⟨⟩, -⟩
      | ok source =>
          change (DataStore.load source).mapError _ = .ok store ↔ _
          rw [mapError_eq_ok_iff]
          constructor
          · intro hload
            exact ⟨source, rfl, hload⟩
          · rintro ⟨text, ⟨⟩, hload⟩
            exact hload

/-- All of a compile command before anything is delivered: the error texts of
its stages in their order, and what is rendered if there is none. -/
def rendering (files : FileAccess (StateM σ)) (state : σ)
    (configuration : Configuration) (template : String) (given : Given)
    (extras : BackendOptions) : Except String Rendered := do
  let registry := registryOf configuration
  let name ←
    chooseBackend registry (given.value? .backend) (given.value? .output)
  let backend ←
    (registry.get name).mapError fun error => errorLine error.message
  let source ← ((files.read template).run state).1.mapError
    (readingError template)
  let store ← ((readData files (given.value? .data)).run state).1
  (backend.render source store (backendOptions configuration extras)).mapError
    fun error => errorLine error.message

/-- A compile command can render: there is a backend, the template and the data
load, and the backend renders them with the options of the command line over
the configured root element. -/
def Renders (files : FileAccess (StateM σ)) (state : σ)
    (configuration : Configuration) (template : String) (given : Given)
    (extras : BackendOptions) (rendered : Rendered) : Prop :=
  ∃ name backend source store,
    AsksFor (given.value? .backend) (given.value? .output) name ∧
    Registered configuration name backend ∧
    ((files.read template).run state).1 = .ok source ∧
    HasData files state (given.value? .data) store ∧
    backend.render source store
      ((Dictionary.empty.insert rootKey configuration.rootElement).union
        extras) = .ok rendered

section Command

variable {state : σ} {configuration : Configuration} {template : String}
  {given : Given} {extras : BackendOptions} {rendered : Rendered}

theorem rendering_eq_ok_iff (hsteady : files.Steady) :
    rendering files state configuration template given extras =
        .ok rendered ↔
      Renders files state configuration template given extras rendered := by
  simp only [rendering, bind_eq_ok_iff, mapError_eq_ok_iff,
    chooseBackend_eq_ok_iff, get_registryOf_eq_ok_iff,
    readData_eq_ok_iff hsteady, backendOptions_eq_union,
    Renders, exists_and_left]

theorem run_runCompile (hsteady : files.Steady) :
    (runCompile files configuration template given extras).run state =
      match rendering files state configuration template given extras with
      | .error text => (.failure text, state)
      | .ok rendered =>
          (deliver files ⟨given.value? .output, given.has .denyWarnings⟩
            rendered).run state := by
  simp only [runCompile, rendering]
  cases chooseBackend (registryOf configuration) (given.value? .backend)
      (given.value? .output) with
  | error text => rfl
  | ok name =>
      simp only [ok_bind]
      cases hget : (registryOf configuration).get name with
      | error error => rfl
      | ok backend =>
          have hrender (source : String) (store : DataStore)
              (options : BackendOptions) :
              (registryOf configuration).render source store name options =
                backend.render source store options := by
            rw [Registry.render, hget, ok_bind]
          simp only [mapError_ok, ok_bind, hrender,
            (hsteady.read template).run_bind]
          cases ((files.read template).run state).1 with
          | error problem => rfl
          | ok source =>
              simp only [mapError_ok, ok_bind,
                (leavesState_readData hsteady _).run_bind]
              cases ((readData files (given.value? .data)).run state).1 with
              | error text => rfl
              | ok store =>
                  simp only [ok_bind]
                  cases backend.render source store
                    (backendOptions configuration extras) <;> rfl

/-! ## Delivering -/

def diagnosticLines (diagnostics : List Diagnostic) : String :=
  String.join <| diagnostics.map fun diagnostic =>
    "warning: " ++ diagnostic.kind.name ++ ": " ++ diagnostic.message ++ "\n"

theorem warningLines_eq (diagnostics : List Diagnostic) :
    warningLines diagnostics = diagnosticLines diagnostics := by
  have htext (diagnostic : Diagnostic) : "warning: " ++ diagnostic.text =
      "warning: " ++ diagnostic.kind.name ++ ": " ++ diagnostic.message := rfl
  simp only [warningLines, diagnosticLines, htext]

/-- Warnings that are denied keep the rendered output from being delivered. -/
def Job.Accepts (job : Job) (rendered : Rendered) : Prop :=
  job.denyWarnings = false ∨ rendered.diagnostics = []

/-- The output has gone where the command sends it, and nowhere else. -/
def Delivered (files : FileAccess (StateM σ)) (state : σ)
    (output? : Option String) (rendered : Rendered)
    (ran : Report × σ) : Prop :=
  match output? with
  | none => ran.1.output = rendered.output ∧ ran.2 = state
  | some path => ran.1.output = "" ∧
      ran.2 = ((files.write path rendered.output).run state).2

theorem deliver_accepted {job : Job} (haccepted : job.Accepts rendered)
    (hwritable : ∀ path ∈ job.output?,
      ((files.write path rendered.output).run state).1 = .ok ()) :
    let ran := (deliver files job rendered).run state
    ran.1.code = 0 ∧ ran.1.errors = diagnosticLines rendered.diagnostics ∧
      Delivered files state job.output? rendered ran := by
  have hallowed :
      ¬(job.denyWarnings && !rendered.diagnostics.isEmpty) = true := by
    rcases haccepted with hgiven | hnone
    · simp [hgiven]
    · simp [hnone]
  rw [deliver, if_neg hallowed, warningLines_eq]
  cases houtput : job.output? with
  | none => exact ⟨rfl, rfl, rfl, rfl⟩
  | some path =>
      dsimp only
      rw [run_bind, hwritable path houtput]
      exact ⟨rfl, rfl, rfl, rfl⟩

theorem deliver_denied {job : Job} (hdenied : ¬job.Accepts rendered) :
    let ran := (deliver files job rendered).run state
    ran.1.code ≠ 0 ∧ ran.1.output = "" ∧ ran.2 = state ∧
      ∃ rest,
        ran.1.errors = diagnosticLines rendered.diagnostics ++ rest := by
  rw [Job.Accepts, not_or, Bool.not_eq_false] at hdenied
  have hrefused :
      (job.denyWarnings && !rendered.diagnostics.isEmpty) = true := by
    simp [hdenied]
  rw [deliver, if_pos hrefused, warningLines_eq]
  exact ⟨nofun, rfl, rfl, _, rfl⟩

/-! ## The command -/

theorem run_compile (hsteady : files.Steady) {config? : Option String}
    (hconfiguration : ((loadConfiguration files config?).run state).1 =
      .ok configuration) :
    (runInvocation files
        { config := config?, command := some (.compile, template, given) }
        extras).run state =
      (runCompile files configuration template given extras).run state := by
  rw [runInvocation, (leavesState_loadConfiguration hsteady _).run_bind,
    hconfiguration]
  rfl

/-- With a configuration and an output file that can be written, the compile
command succeeds if it can render and no warnings are denied, and only then.
The output then goes to its destination, and to nothing else.  Otherwise it
goes nowhere.  What can be rendered has a line for each of its diagnostics. -/
theorem compile_success_iff (template : String) (given : Given)
    (extras : BackendOptions) (hsteady : files.Steady)
    {config? : Option String}
    (hconfiguration : ((loadConfiguration files config?).run state).1 =
      .ok configuration)
    (hwritable : ∀ path ∈ given.value? .output, ∀ contents,
      ((files.write path contents).run state).1 = .ok ()) :
    let ran := (runInvocation files
      { config := config?, command := some (.compile, template, given) }
      extras).run state
    let renders := Renders files state configuration template given extras
    (ran.1.code = 0 ↔
      ∃ rendered, renders rendered ∧
        (given.has .denyWarnings = false ∨ rendered.diagnostics = [])) ∧
    (ran.1.code ≠ 0 → ran.1.output = "" ∧ ran.2 = state) ∧
    ∀ rendered, renders rendered →
      (ran.1.code = 0 →
        ran.1.errors = diagnosticLines rendered.diagnostics ∧
        Delivered files state (given.value? .output) rendered ran) ∧
      (ran.1.code ≠ 0 → ∃ rest,
        ran.1.errors = diagnosticLines rendered.diagnostics ++ rest) := by
  intro ran renders
  have hran : ran = _ :=
    (run_compile hsteady hconfiguration).trans (run_runCompile hsteady)
  -- the command can render exactly what its first half gives
  have hrenders (rendered : Rendered) : renders rendered ↔
      rendering files state configuration template given extras =
        .ok rendered := (rendering_eq_ok_iff hsteady).symm
  clear_value ran renders
  cases hattempt : rendering files state configuration template given
      extras with
  | error text =>
      rw [hattempt] at hran
      subst hran
      have hnone (rendered : Rendered) : ¬renders rendered := by
        rw [hrenders, hattempt]
        exact nofun
      refine ⟨iff_of_false nofun ?_, fun _ => ⟨rfl, rfl⟩, ?_⟩
      · rintro ⟨rendered, hrendered, -⟩
        exact hnone rendered hrendered
      · intro rendered hrendered
        exact absurd hrendered (hnone rendered)
  | ok found =>
      rw [hattempt] at hran
      subst hran
      have hfound (rendered : Rendered) :
          renders rendered ↔ rendered = found := by
        rw [hrenders, hattempt, Except.ok.injEq]
        exact eq_comm
      let job : Job := ⟨given.value? .output, given.has .denyWarnings⟩
      by_cases haccepted : job.Accepts found
      · obtain ⟨hcode, hdelivered⟩ := deliver_accepted haccepted
          fun path hpath => hwritable path hpath found.output
        refine ⟨?_, fun hfailed => absurd hcode hfailed, ?_⟩
        · exact iff_of_true hcode ⟨found, (hfound found).mpr rfl, haccepted⟩
        · intro rendered hrendered
          rw [(hfound rendered).mp hrendered]
          exact ⟨fun _ => hdelivered, fun hfailed => absurd hcode hfailed⟩
      · obtain ⟨hcode, houtput, hafter, hlines⟩ :=
          @deliver_denied σ files state found job haccepted
        refine ⟨iff_of_false hcode ?_, fun _ => ⟨houtput, hafter⟩, ?_⟩
        · rintro ⟨rendered, hrendered, hallowed⟩
          rw [(hfound rendered).mp hrendered] at hallowed
          exact haccepted hallowed
        · intro rendered hrendered
          rw [(hfound rendered).mp hrendered]
          exact ⟨fun hsucceeded => absurd hsucceeded hcode, fun _ => hlines⟩

/-- A page goes to a file, with a warning. -/
theorem compile_success_iff_page :
    let folder : Folder :=
      ⟨.ofList [("a.xml", "<doc><value id=\"name\"/></doc>")]⟩
    let given : Given := ⟨[(.output, "b.html")], some "a.xml"⟩
    let extras : BackendOptions := .ofList [("root", "doc")]
    let ran := (runInvocation Folder.access
      { command := some (.compile, "a.xml", given) } extras).run folder
    Folder.access.Steady ∧
      ((loadConfiguration Folder.access none).run folder).1 = .ok {} ∧
      (∀ path ∈ given.value? .output, ∀ contents,
        ((Folder.access.write path contents).run folder).1 = .ok ()) ∧
      ran.1.output = "" ∧
      ∃ rendered,
        Renders Folder.access folder {} "a.xml" given extras rendered ∧
        ran.1.errors = diagnosticLines rendered.diagnostics ∧
        ran.2 =
          ((Folder.access.write "b.html" rendered.output).run folder).2 := by
  intro folder given extras ran
  have hconfiguration :
      ((loadConfiguration Folder.access none).run folder).1 = .ok {} :=
    loadConfiguration_of_absent (by decide +kernel)
  have hwritable : ∀ path ∈ given.value? .output, ∀ contents,
      ((Folder.access.write path contents).run folder).1 = .ok () := by
    rintro path ⟨⟩ contents
    have hplace : folder.locate "b.html" = .ok ⟨.folder, ["b.html"]⟩ := by
      decide +kernel
    rw [Folder.write_located (by decide +kernel) hplace (by decide +kernel)]
  have hcode : ran.1.code = 0 := by decide +kernel
  obtain ⟨hiff, -, hall⟩ := compile_success_iff "a.xml" given extras
    Folder.steady_access hconfiguration hwritable
  obtain ⟨rendered, hrenders, -⟩ := hiff.mp hcode
  obtain ⟨hlines, hdelivered⟩ := (hall rendered hrenders).1 hcode
  exact ⟨Folder.steady_access, hconfiguration, hwritable, hdelivered.1,
    rendered, hrenders, hlines, hdelivered.2⟩

end Command

end CommandLine
end DocTemplate
