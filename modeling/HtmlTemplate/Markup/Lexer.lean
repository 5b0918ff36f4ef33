import HtmlTemplate.Markup.Token

/-!
Splitting a template into tokens. Markup starts at `<!--`, `<!doctype`, `</` with a letter and `<`
with a letter; anything else is text. A tag ends at the first `>` outside of quotes. After the
opening tag of a raw-text element everything up to its closing tag is one text.
-/

namespace HtmlTemplate.Token

def isNameChar (c : Char) : Bool := c.isAlphanum || c == '-' || c == '_' || c == ':'

def markup? (cs : Text) : Option TokenKind :=
  if "<!--".toList.isPrefixOf cs then some .comment
  else if Text.lowerAscii (cs.take 9) = "<!doctype" then some .doctype
  else match cs with
    | '<' :: '/' :: c :: _ => if c.isAlpha then some .tagClose else none
    | '<' :: c :: _ => if c.isAlpha then some .tagOpen else none
    | _ => none

def cutBeforeMarkup : Text → Text × Text
  | [] => ([], [])
  | c :: cs =>
    if (markup? (c :: cs)).isSome then ([], c :: cs)
    else
      let (run, rest) := cutBeforeMarkup cs
      (c :: run, rest)

/-- Cuts the text after the first `>` outside of quotes, or at its end. -/
def cutAfterTag (open? : Option Char) : Text → Text × Text
  | [] => ([], [])
  | c :: cs =>
    if open?.isNone && c = '>' then ([c], cs)
    else
      let (tag, rest) := cutAfterTag (Attribute.nextQuote open? c) cs
      (c :: tag, rest)

/-- Cuts what follows `<!--` after the first `-->`, or at its end. -/
def cutAfterComment (cs : Text) : Text × Text :=
  match Text.breakOn "-->" cs with
  | some (body, rest) => (body ++ "-->", rest)
  | none => (cs, [])

def cutAfterMarkup (kind : TokenKind) (cs : Text) : Text × Text :=
  match kind with
  | .comment =>
    let (comment, rest) := cutAfterComment (cs.drop 4)
    (cs.take 4 ++ comment, rest)
  | _ =>
    let (tag, rest) := cutAfterTag none (cs.drop 1)
    (cs.take 1 ++ tag, rest)

/-- Cuts raw text before the next `</` that is followed by `name` in any case, or at its end. -/
def cutBeforeClosing (name : Text) : Text → Text × Text
  | [] => ([], [])
  | c :: cs =>
    if Text.lowerAscii ((c :: cs).take (name.length + 2)) = "</" ++ name then ([], c :: cs)
    else
      let (content, rest) := cutBeforeClosing name cs
      (c :: content, rest)

/-- The inside of an opening tag: what stands between its name and the `>` or `/>`. -/
def interior (name text : Text) : Text :=
  let inside := text.drop (name.length + 1)
  inside.take (inside.length - (if "/>".toList.isSuffixOf text then 2 else 1))

/-- The token of a tag, or of plain text if the tag does not end in `>`. -/
def ofTag (kind : TokenKind) (start : Nat) (text : Text) : Token :=
  let written := (text.drop (if kind = .tagClose then 2 else 1)).takeWhile isNameChar
  let name := Text.lowerAscii written
  if written.isEmpty ∨ text.getLast? ≠ some '>' then plain .text start text
  else if kind = .tagOpen then
    { kind, start, text, name
      attributes := Attribute.split (interior written text)
      standalone := "/>".toList.isSuffixOf text || voidElements.contains name }
  else ⟨kind, start, text, name, [], false⟩

def ofMarkup (kind : TokenKind) (start : Nat) (text : Text) : Token :=
  if kind = .tagOpen ∨ kind = .tagClose then ofTag kind start text else plain kind start text

def textToken (start : Nat) (text : Text) : List Token :=
  if text.isEmpty then [] else [plain .text start text]

theorem length_cutBeforeMarkup_le (cs : Text) : (cutBeforeMarkup cs).2.length ≤ cs.length := by
  induction cs with
  | nil => simp [cutBeforeMarkup]
  | cons c cs ih =>
    simp only [cutBeforeMarkup]
    split
    · simp
    · simp only [List.length_cons]
      omega

theorem length_cutAfterTag_le (open? : Option Char) (cs : Text) :
    (cutAfterTag open? cs).2.length ≤ cs.length := by
  induction cs generalizing open? with
  | nil => simp [cutAfterTag]
  | cons c cs ih =>
    simp only [cutAfterTag]
    split
    · simp
    · have := ih (Attribute.nextQuote open? c)
      simp only [List.length_cons]
      omega

theorem length_cutAfterComment_le (cs : Text) : (cutAfterComment cs).2.length ≤ cs.length := by
  unfold cutAfterComment
  split
  · next h =>
    rw [Text.eq_of_breakOn_eq_some h]
    simp only [List.length_append]
    omega
  · simp

theorem length_cutAfterMarkup_lt (kind : TokenKind) (c : Char) (cs : Text) :
    (cutAfterMarkup kind (c :: cs)).2.length < (c :: cs).length := by
  have hc := length_cutAfterComment_le ((c :: cs).drop 4)
  have ht := length_cutAfterTag_le none cs
  cases kind <;> simp only [cutAfterMarkup, List.length_drop, List.length_cons, List.drop_succ_cons,
    List.drop_zero] at hc ⊢ <;> omega

theorem length_cutBeforeClosing_le (name cs : Text) :
    (cutBeforeClosing name cs).2.length ≤ cs.length := by
  induction cs with
  | nil => simp [cutBeforeClosing]
  | cons c cs ih =>
    simp only [cutBeforeClosing]
    split
    · simp
    · simp only [List.length_cons]
      omega

/-- The tokens of a text that starts at offset `start` of the template. -/
def lexFrom (start : Nat) : Text → List Token
  | [] => []
  | c :: cs =>
    match markup? (c :: cs) with
    | none =>
      let text := c :: (cutBeforeMarkup cs).1
      plain .text start text :: lexFrom (start + Text.byteSize text) (cutBeforeMarkup cs).2
    | some kind =>
      let cut := cutAfterMarkup kind (c :: cs)
      let token := ofMarkup kind start cut.1
      if token.opensRawText then
        let raw := cutBeforeClosing token.name cut.2
        token :: textToken token.stop raw.1 ++
          lexFrom (token.stop + Text.byteSize raw.1) raw.2
      else token :: lexFrom token.stop cut.2
termination_by cs => cs.length
decreasing_by
  · have := length_cutBeforeMarkup_le cs
    simp only [List.length_cons]
    omega
  · have hcut := length_cutAfterMarkup_lt kind c cs
    have hraw := length_cutBeforeClosing_le token.name cut.2
    exact Nat.lt_of_le_of_lt hraw hcut
  · exact length_cutAfterMarkup_lt kind c cs

def lex (source : Text) : List Token := lexFrom 0 source

end HtmlTemplate.Token
