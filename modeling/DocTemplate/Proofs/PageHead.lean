import DocTemplate.Proofs.Tokens

/-!
# What the head of a page says

The head is not written from a tree, and it has a way of escaping of its own,
which serves in texts and in values alike.  Behind the document type, which is
put in as it is, the head is read back as its elements with the options in
their places.
-/

namespace DocTemplate
namespace Html

/-! ## The tokens of a head -/

def sheetTokens (sheet : String) : List Token :=
  [.character ' ', .character ' ',
    .start "link"
      [("rel", "stylesheet"), ("type", "text/css"), ("href", sheet)],
    .character '\n']

def scriptTokens (script : String) : List Token :=
  [.character ' ', .character ' ',
    .start "script" [("type", "text/javascript"), ("src", script)],
    .stop "script", .character '\n']

/-- The tokens of a head, in which the options stand as they are. -/
def headTokens (options : PageOptions) : List Token :=
  [.start "html" [], .character '\n', .start "head" [], .character '\n',
    .character ' ', .character ' ',
    .start "meta" [("charset", options.encoding)], .character '\n',
    .character ' ', .character ' ', .start "title" []] ++
    (options.title.getD "").toList.map .character ++
    [.stop "title", .character '\n'] ++
    options.styleSheets.flatMap sheetTokens ++
    options.scripts.flatMap scriptTokens ++
    [.stop "head", .character '\n', .start "body" [], .character '\n']

theorem toList_headText (text : String) :
    (headText text).toList = text.toList.flatMap escapeHead := by
  simp [headText]

/-! ## Texts one after the other -/

theorem Reads.appendText {place next last : Place} {first second : String}
    {tokens others : List Token}
    (hfirst : Reads place first.toList tokens next)
    (hsecond : Reads next second.toList others last) :
    Reads place (first ++ second).toList (tokens ++ others) last := by
  rw [String.toList_append]
  exact hfirst.append hsecond

theorem reads_joined {write : String → String} {made : String → List Token}
    {items : List String}
    (hitem : ∀ item ∈ items,
      Reads .text (write item).toList (made item) .text) :
    Reads .text (String.join (items.map write)).toList (items.flatMap made)
      .text := by
  rw [String.toList_join, List.flatMap_map]
  exact reads_flatMap hitem

/-- A value between two texts: the first ends behind the quote that opens the
value, and the second begins behind the one that closes it. -/
theorem reads_headText {before after : String} {tokens others : List Token}
    {opened : OpenTag} {name : List Char}
    (hbefore : Reads .text before.toList tokens (.value opened name []))
    (hafter : ∀ quoted, Reads (.quote quoted) after.toList
      (OpenTag.token quoted :: others) .text) (contents : String) :
    Reads .text (before ++ headText contents ++ "\"" ++ after).toList
      (tokens ++ .start (String.ofList opened.name)
        (opened.attributes ++ [(String.ofList name, contents)]) :: others)
      .text := by
  have hvalue := reads_value escapeHead_undone_value opened name contents
  have hquoted : Reads (.value opened name [])
      (headText contents ++ "\"").toList [] (.quote { opened with
        attributes :=
          opened.attributes ++ [(String.ofList name, contents)] }) := by
    rw [String.toList_append, toList_headText]
    exact hvalue
  have hall := hbefore.appendText (hquoted.appendText (hafter _))
  rw [← String.append_assoc, ← String.append_assoc] at hall
  exact hall

def sheetText (sheet : String) : String :=
  "  <link rel=\"stylesheet\" type=\"text/css\" href=\""
    ++ headText sheet ++ "\">\n"

def scriptText (script : String) : String :=
  "  <script type=\"text/javascript\" src=\""
    ++ headText script ++ "\"></script>\n"

theorem reads_sheetText (sheet : String) :
    Reads .text (sheetText sheet).toList (sheetTokens sheet) .text := by
  have hbefore : Reads .text
      "  <link rel=\"stylesheet\" type=\"text/css\" href=\"".toList
      [.character ' ', .character ' ']
      (.value ⟨"link".toList, [("rel", "stylesheet"), ("type", "text/css")]⟩
        "href".toList []) := by
    unfold Reads
    decide +kernel
  have hafter (quoted : OpenTag) : Reads (.quote quoted) ">\n".toList
      [quoted.token, .character '\n'] .text := rfl
  have hread := reads_headText hbefore hafter sheet
  rw [String.append_assoc] at hread
  exact hread

theorem reads_scriptText (script : String) :
    Reads .text (scriptText script).toList (scriptTokens script) .text := by
  have hbefore : Reads .text
      "  <script type=\"text/javascript\" src=\"".toList
      [.character ' ', .character ' ']
      (.value ⟨"script".toList, [("type", "text/javascript")]⟩
        "src".toList []) := by
    unfold Reads
    decide +kernel
  have hafter (quoted : OpenTag) : Reads (.quote quoted) "></script>\n".toList
      [quoted.token, .stop "script", .character '\n'] .text := rfl
  have hread := reads_headText hbefore hafter script
  rw [String.append_assoc] at hread
  exact hread

theorem reads_titleBefore (encoding : String) :
    Reads .text ("<html>\n<head>\n  <meta charset=\"" ++ headText encoding
        ++ "\"" ++ ">\n  <title>").toList
      [.start "html" [], .character '\n', .start "head" [], .character '\n',
        .character ' ', .character ' ',
        .start "meta" [("charset", encoding)], .character '\n',
        .character ' ', .character ' ', .start "title" []] .text := by
  have hbefore : Reads .text "<html>\n<head>\n  <meta charset=\"".toList
      [.start "html" [], .character '\n', .start "head" [], .character '\n',
        .character ' ', .character ' ']
      (.value ⟨"meta".toList, []⟩ "charset".toList []) := by
    unfold Reads
    decide +kernel
  have hafter (quoted : OpenTag) : Reads (.quote quoted) ">\n  <title>".toList
      [quoted.token, .character '\n', .character ' ', .character ' ',
        .start "title" []] .text := rfl
  exact reads_headText hbefore hafter encoding

/-- The head behind the declaration, up to the body. -/
def headMarkup (options : PageOptions) : String :=
  "<html>\n<head>\n  <meta charset=\"" ++ headText options.encoding ++ "\"" ++
    ">\n  <title>" ++ headText (options.title.getD "") ++ "</title>\n" ++
    String.join (options.styleSheets.map sheetText) ++
    String.join (options.scripts.map scriptText) ++ "</head>\n<body>\n"

theorem pageHead_eq (options : PageOptions) :
    pageHead options = options.declaration ++ "\n" ++ headMarkup options := by
  have hbefore : "\n<html>\n<head>\n  <meta charset=\"" =
      "\n" ++ "<html>\n<head>\n  <meta charset=\"" := by decide +kernel
  have hquote : "\">\n  <title>" = "\"" ++ ">\n  <title>" := by decide +kernel
  have hsheets : sheetText = fun sheet =>
      "  <link rel=\"stylesheet\" type=\"text/css\" href=\"" ++
        (headText sheet ++ "\">\n") :=
    funext fun sheet => String.append_assoc
  have hscripts : scriptText = fun script =>
      "  <script type=\"text/javascript\" src=\"" ++
        (headText script ++ "\"></script>\n") :=
    funext fun script => String.append_assoc
  unfold pageHead headMarkup
  simp only [hbefore, hquote, hsheets, hscripts, String.append_assoc]

theorem reads_headMarkup (options : PageOptions) :
    Reads .text (headMarkup options).toList (headTokens options) .text := by
  have hopening := reads_titleBefore options.encoding
  have htitle : Reads .text (headText (options.title.getD "")).toList
      ((options.title.getD "").toList.map .character) .text := by
    rw [toList_headText]
    exact reads_text escapeHead_undone_text _
  have hclosing : Reads .text "</title>\n".toList
      [.stop "title", .character '\n'] .text := by
    unfold Reads
    decide +kernel
  have hsheets : Reads .text
      (String.join (options.styleSheets.map sheetText)).toList
      (options.styleSheets.flatMap sheetTokens) .text :=
    reads_joined fun sheet _ => reads_sheetText sheet
  have hscripts : Reads .text
      (String.join (options.scripts.map scriptText)).toList
      (options.scripts.flatMap scriptTokens) .text :=
    reads_joined fun script _ => reads_scriptText script
  have hbody : Reads .text "</head>\n<body>\n".toList
      [.stop "head", .character '\n', .start "body" [], .character '\n']
      .text := by
    unfold Reads
    decide +kernel
  exact ((((hopening.appendText htitle).appendText hclosing).appendText
    hsheets).appendText hscripts).appendText hbody

end Html
end DocTemplate
