import HtmlTemplate.Proofs.Markup.Classes

/-!
Lexing by bytes. The scan goes through the bytes of the template one by one, keeps the offset where
the pending text starts and takes the texts of tokens, names and attributes as slices between byte
offsets, each of which may fail. None does: the scan gives the tokens of the template
(`scan?_eq_lex`), and these tile it (`tiles_lex`).
-/

namespace HtmlTemplate

open Text

namespace Attribute

/-! ## Attributes -/

/-- The attribute of a chunk, its key and value taken as slices of the chunk. -/
def ofChunk? (chunk : Text) : Option Attribute :=
  let equals := byteSize (chunk.takeWhile (· != '='))
  if equals = byteSize chunk then some ⟨lowerAscii chunk, none, none, false, chunk⟩
  else do
    let key ← slice? chunk 0 equals
    let after ← slice? chunk (equals + 1) (byteSize chunk)
    let key := lowerAscii (trim key)
    let value := trimStart after
    match value.head? with
    | none => some ⟨key, some value, none, false, chunk⟩
    | some q =>
      if !isQuote q then some ⟨key, some value, none, false, chunk⟩
      else do
        let inside ← slice? value 1 (byteSize value)
        if inside.getLast? = some q then
          let inside ← slice? inside 0 (byteSize inside - 1)
          some ⟨key, some inside, some q, true, chunk⟩
        else some ⟨key, some inside, some q, false, chunk⟩

/-- Chunks as slices of the inside of a tag: `start` is the offset of the unfinished chunk, if there
is one, and `gap` that of the blanks after it, and the rest of the text is at offset `i`. -/
def chunksFrom? (interior : Text) (open? : Option Char) (start gap : Option Nat) (i : Nat) :
    Text → Option (List Text)
  | [] =>
    match start with
    | none => some []
    | some s => (slice? interior s (gap.getD (byteSize interior))).map ([·])
  | c :: cs =>
    let next := i + c.utf8Size
    if open?.isNone && isBlank c then
      chunksFrom? interior open? start (if start.isSome then gap.or (some i) else none) next cs
    else
      match start, gap with
      | some s, some g => do
        let chunk ← slice? interior s g
        if c = '=' ∨ chunk.getLast? = some '=' then
          chunksFrom? interior (nextQuote open? c) (some s) none next cs
        else
          let chunks ← chunksFrom? interior (nextQuote open? c) (some i) none next cs
          some (chunk :: chunks)
      | _, _ => chunksFrom? interior (nextQuote open? c) (start.or (some i)) none next cs

def split? (interior : Text) : Option (List Attribute) := do
  let chunks ← chunksFrom? interior none none none 0 interior
  (chunks.filter (· != ['/'])).mapM ofChunk?

end Attribute

namespace Token

/-! ## The scan -/

/-- The token of a tag by slices of its text: its name ends with the first byte that is no name
character. -/
def ofTag? (kind : TokenKind) (start : Nat) (text : Text) : Option Token := do
  let nameStart := if kind = .tagClose then 2 else 1
  let nameEnd := nameStart + (((bytes text).drop nameStart).takeWhile isNameChar).length
  let written ← slice? text nameStart nameEnd
  if nameEnd = nameStart ∨ text.getLast? ≠ some '>' then some (plain .text start text)
  else if kind = .tagOpen then
    let selfCloses := "/>".toList.isSuffixOf text
    let interiorEnd := byteSize text - if selfCloses ∧ nameEnd + 2 ≤ byteSize text then 2 else 1
    let interior ← slice? text nameEnd interiorEnd
    let attributes ← Attribute.split? interior
    some ⟨kind, start, text, lowerAscii written, attributes,
      selfCloses || voidElements.contains (lowerAscii written)⟩
  else some ⟨kind, start, text, lowerAscii written, [], false⟩

def ofMarkup? (source : Text) (kind : TokenKind) (start stop : Nat) : Option Token := do
  let text ← slice? source start stop
  if kind = .tagOpen ∨ kind = .tagClose then ofTag? kind start text
  else some (plain kind start text)

def textToken? (source : Text) (start stop : Nat) : Option (List Token) :=
  if start < stop then (slice? source start stop).map fun text => [plain .text start text]
  else some []

/-- The tokens from offset `start` on, scanned from byte `i` on, where the given bytes are left. -/
def scanFrom? (source : Text) (start i : Nat) : Text → Option (List Token)
  | [] => textToken? source start i
  | b :: bs =>
    match markup? (b :: bs) with
    | none => scanFrom? source start (i + 1) bs
    | some kind => do
      let text ← textToken? source start i
      let cut := cutAfterMarkup kind (b :: bs)
      let stop := i + cut.1.length
      let token ← ofMarkup? source kind i stop
      let raw := token.rawTextAfter cut.2
      let tokens ← scanFrom? source stop (stop + raw.1.length) raw.2
      some (text ++ token :: tokens)
termination_by bs => bs.length
decreasing_by
  · exact Nat.lt_succ_self _
  · have hcut := length_cutAfterMarkup_lt kind b bs
    have hraw : raw.2.length ≤ cut.2.length := by
      rw [← append_rawTextAfter token cut.2, List.length_append]
      exact Nat.le_add_left _ _
    exact Nat.lt_of_le_of_lt hraw hcut

def scan? (source : Text) : Option (List Token) := scanFrom? source 0 0 (bytes source)

end Token

namespace Attribute

/-! ## Slices of attributes -/

theorem isAscii_of_isQuote {c : Char} (h : isQuote c = true) : IsAscii c := by
  simp only [isQuote, Bool.or_eq_true, beq_iff_eq] at h
  rcases h with rfl | rfl <;> decide

/-- What holds of every quote holds of the quote that is open after one more character. -/
theorem forall_mem_nextQuote {p : Char → Prop} {open? : Option Char} {c : Char}
    (hquote : ∀ q, isQuote q = true → p q) (hopen : ∀ q ∈ open?, p q) :
    ∀ q ∈ nextQuote open? c, p q := by
  intro q hq
  unfold nextQuote at hq
  split at hq
  · split at hq
    · cases hq
    · exact hopen q hq
  · split at hq
    · next hc => exact Option.some.inj hq ▸ hquote c hc
    · cases hq

/-- The slice up to an ASCII character at the end of the text. -/
theorem slice?_concat {t : Text} {c : Char} (hc : IsAscii c) :
    slice? (t ++ [c]) 0 (byteSize (t ++ [c]) - 1) = some t := by
  refine slice?_eq_some_iff.mpr ⟨[], [c], rfl, rfl, ?_⟩
  rw [byteSize_append, byteSize_cons, utf8Size_of_isAscii hc]
  simp

/-- The slice behind an ASCII character. -/
theorem slice?_behind (s : Text) {c : Char} (hc : IsAscii c) (t : Text) :
    slice? (s ++ c :: t) (byteSize s + 1) (byteSize (s ++ c :: t)) = some t := by
  refine slice?_eq_some_iff.mpr ⟨s ++ [c], [], by simp, ?_, ?_⟩
  · rw [byteSize_append, byteSize_cons, utf8Size_of_isAscii hc]
    rfl
  · simp [Nat.add_assoc]

theorem ofChunk?_eq (chunk : Text) : ofChunk? chunk = some (ofChunk chunk) := by
  have hsplit : chunk.takeWhile (· != '=') ++ chunk.dropWhile (· != '=') = chunk :=
    List.takeWhile_append_dropWhile
  have hhead := List.head?_dropWhile_not (· != '=') chunk
  unfold ofChunk? ofChunk
  generalize chunk.takeWhile (· != '=') = key at hsplit ⊢
  cases hrest : chunk.dropWhile (· != '=') with
  | nil =>
    rw [hrest, List.append_nil] at hsplit
    rw [hsplit]
    exact if_pos rfl
  | cons d after =>
    rw [hrest] at hsplit hhead
    obtain rfl : d = '=' := by simpa using hhead
    have hequals : IsAscii '=' := by decide
    have hne : byteSize key ≠ byteSize chunk := by
      rw [← hsplit, byteSize_append, byteSize_cons, utf8Size_of_isAscii hequals]
      omega
    have hkey : slice? chunk 0 (byteSize key) = some key :=
      slice?_eq_some_iff.mpr ⟨[], '=' :: after, by rw [← hsplit]; rfl, rfl, Nat.zero_add _⟩
    have hafter : slice? chunk (byteSize key + 1) (byteSize chunk) = some after := by
      rw [← hsplit]
      exact slice?_behind key hequals after
    simp only [hne, if_false, hkey, hafter, Option.bind_eq_bind, Option.bind_some]
    cases trimStart after with
    | nil => rfl
    | cons q inside =>
      simp only [List.head?_cons]
      cases hquote : isQuote q with
      | false => rfl
      | true =>
        have hq := isAscii_of_isQuote hquote
        have hinside : slice? (q :: inside) 1 (byteSize (q :: inside)) = some inside :=
          slice?_behind [] hq inside
        simp only [hinside, Option.bind_some]
        by_cases hlast : inside.getLast? = some q
        · obtain ⟨value, rfl⟩ := List.getLast?_eq_some_iff.mp hlast
          simp only [hlast, if_true, slice?_concat hq, Option.bind_some, List.dropLast_concat,
            Bool.not_true, Bool.false_eq_true, if_false]
        · simp [hlast]

theorem slice?_chunk {interior before chunk gap cs : Text}
    (h : interior = before ++ chunk.reverse ++ gap.reverse ++ cs) :
    slice? interior (byteSize before) (byteSize (before ++ chunk.reverse)) =
      some chunk.reverse := by
  rw [h, byteSize_append, List.append_assoc]
  exact slice?_append before chunk.reverse (gap.reverse ++ cs)

/-- The end of the inside of a tag ends the unfinished chunk. -/
theorem chunksFrom?_nil {interior before chunk gap : Text} (open? : Option Char)
    (h : interior = before ++ chunk.reverse ++ gap.reverse) :
    chunksFrom? interior open? (if chunk.isEmpty then none else some (byteSize before))
      (if gap.isEmpty then none else some (byteSize (before ++ chunk.reverse)))
      (byteSize (before ++ chunk.reverse ++ gap.reverse)) [] =
    some (chunksAfter open? chunk gap []) := by
  unfold chunksFrom? chunksAfter
  rcases chunk with _ | ⟨d, chunk⟩
  · rfl
  · have hstop : (if gap.isEmpty then none else
        some (byteSize (before ++ (d :: chunk).reverse))).getD (byteSize interior) =
          byteSize (before ++ (d :: chunk).reverse) := by
      cases gap with
      | nil => simp [h]
      | cons e gap => rfl
    have hslice := slice?_chunk (h.trans (List.append_nil _).symm)
    change (slice? interior (byteSize before) _).map ([·]) = some [(d :: chunk).reverse]
    rw [hstop, hslice]
    rfl

/-- The offsets of the scan are those of the unfinished chunk and of the blanks after it. -/
theorem chunksFrom?_eq (before chunk gap : Text) (open? : Option Char) {interior cs : Text}
    (h : interior = before ++ chunk.reverse ++ gap.reverse ++ cs) (hgap : chunk = [] → gap = []) :
    chunksFrom? interior open? (if chunk.isEmpty then none else some (byteSize before))
      (if gap.isEmpty then none else some (byteSize (before ++ chunk.reverse)))
      (byteSize (before ++ chunk.reverse ++ gap.reverse)) cs =
    some (chunksAfter open? chunk gap cs) := by
  induction cs generalizing before chunk gap open? with
  | nil => exact chunksFrom?_nil open? (h.trans (List.append_nil _))
  | cons c cs ih =>
    have hslice := slice?_chunk h
    have hstep (before' chunk' gap' : Text) (open' : Option Char)
        (hread : before' ++ chunk'.reverse ++ gap'.reverse =
          before ++ chunk.reverse ++ gap.reverse ++ [c]) (hgap' : chunk' = [] → gap' = []) :
        chunksFrom? interior open' (if chunk'.isEmpty then none else some (byteSize before'))
          (if gap'.isEmpty then none else some (byteSize (before' ++ chunk'.reverse)))
          (byteSize (before ++ chunk.reverse ++ gap.reverse) + c.utf8Size) cs =
        some (chunksAfter open' chunk' gap' cs) := by
      have hrest : interior = before' ++ chunk'.reverse ++ gap'.reverse ++ cs := by simp [hread, h]
      have hsize := congrArg byteSize hread
      rw [byteSize_append _ [c]] at hsize
      rw [← ih before' chunk' gap' open' hrest hgap', hsize]
      rfl
    unfold chunksFrom? chunksAfter
    by_cases hblank : (open?.isNone && isBlank c) = true
    · rw [if_pos hblank, if_pos hblank]
      rcases chunk with _ | ⟨d, chunk⟩
      · obtain rfl := hgap rfl
        exact hstep (before ++ [c]) [] [] _ (by simp) fun _ => rfl
      · rcases gap with _ | ⟨e, gap⟩
        · have hnext := hstep before (d :: chunk) [c] open? (by simp) nofun
          simpa using hnext
        · exact hstep before (d :: chunk) (c :: e :: gap) _ (by simp) nofun
    · rw [if_neg hblank, if_neg hblank]
      rcases chunk with _ | ⟨d, chunk⟩
      · obtain rfl := hgap rfl
        have hnext := hstep before [c] [] (nextQuote open? c) (by simp) nofun
        simpa using hnext
      · rcases gap with _ | ⟨e, gap⟩
        · exact hstep before (c :: d :: chunk) [] _ (by simp) nofun
        · have hlast : (d :: chunk).reverse.getLast? = some '=' ↔ d = '=' := by simp
          simp only [List.isEmpty_cons, Bool.false_eq_true, if_false, hslice, Option.bind_eq_bind,
            Option.bind_some, hlast]
          by_cases hjoins : c = '=' ∨ d = '='
          · rw [if_pos hjoins, if_pos (by simpa using hjoins)]
            exact hstep before (c :: (e :: gap ++ d :: chunk)) [] _ (by simp) nofun
          · have hnext := hstep (before ++ (d :: chunk).reverse ++ (e :: gap).reverse) [c] []
              (nextQuote open? c) (by simp) nofun
            rw [if_neg hjoins, if_neg (by simpa using hjoins)]
            exact congrArg (Option.bind · _) hnext

theorem split?_eq (interior : Text) : split? interior = some (split interior) := by
  have hchunk (pieces : List Text) : pieces.mapM ofChunk? = some (pieces.map ofChunk) := by
    rw [show ofChunk? = fun chunk => some (ofChunk chunk) from funext ofChunk?_eq]
    exact List.mapM_pure
  have hall : chunksFrom? interior none none none 0 interior = some (chunks interior) :=
    chunksFrom?_eq [] [] [] none rfl fun _ => rfl
  rw [split?, hall]
  exact hchunk _

end Attribute

namespace Token

/-! ## Cuts of bytes -/

theorem markup?_bytes (cs : Text) : markup? (bytes cs) = markup? cs := by
  apply Option.ext
  intro kind
  rw [markup?_eq_some_iff, markup?_eq_some_iff, begins_bytes]

theorem nextQuote_of_not_isAscii {open? : Option Char} {c : Char} (hopen : ∀ q ∈ open?, IsAscii q)
    (hc : ¬IsAscii c) : Attribute.nextQuote open? c = open? := by
  cases open? with
  | none => exact if_neg fun hquote => hc (Attribute.isAscii_of_isQuote hquote)
  | some q =>
    refine if_neg ?_
    rintro rfl
    exact hc (hopen c rfl)

theorem cutAfterTag_append_of_not_isAscii {open? : Option Char} (bs t : Text)
    (hopen : ∀ q ∈ open?, IsAscii q) (hbs : ∀ d ∈ bs, ¬IsAscii d) :
    cutAfterTag open? (bs ++ t) = (bs ++ (cutAfterTag open? t).1, (cutAfterTag open? t).2) := by
  induction bs with
  | nil => rfl
  | cons d bs ih =>
    have hd := hbs d List.mem_cons_self
    have hne : d ≠ '>' := by
      rintro rfl
      exact hd (by decide)
    rw [List.cons_append, cutAfterTag, if_neg (by simp [hne]), nextQuote_of_not_isAscii hopen hd,
      ih fun e he => hbs e (List.mem_cons_of_mem d he)]
    rfl

theorem cutAfterTag_bytes {open? : Option Char} (hopen : ∀ q ∈ open?, IsAscii q) (t : Text) :
    cutAfterTag open? (bytes t) =
      (bytes (cutAfterTag open? t).1, bytes (cutAfterTag open? t).2) := by
  induction t generalizing open? with
  | nil => rfl
  | cons c t ih =>
    by_cases hc : IsAscii c
    · rw [bytes_cons_of_isAscii hc]
      unfold cutAfterTag
      split
      · rw [bytes_of_isAscii hc]
      · rw [ih (Attribute.forall_mem_nextQuote (fun _ => Attribute.isAscii_of_isQuote) hopen),
          bytes_cons_of_isAscii hc]
    · have hskip : cutAfterTag open? (c :: t) =
          (c :: (cutAfterTag open? t).1, (cutAfterTag open? t).2) :=
        cutAfterTag_append_of_not_isAscii [c] t hopen
          fun d hd => List.mem_singleton.mp hd ▸ hc
      rw [bytes_cons, cutAfterTag_append_of_not_isAscii _ _ hopen
        fun d => not_isAscii_of_mem_bytes hc, ih hopen, hskip, bytes_cons c (cutAfterTag open? t).1]

theorem cutAfterComment_bytes (t : Text) :
    cutAfterComment (bytes t) = (bytes (cutAfterComment t).1, bytes (cutAfterComment t).2) := by
  have hbreak : breakOn "-->" (bytes t) = (breakOn "-->" t).map (Prod.map bytes bytes) :=
    breakOn_bytes (forall_isAscii rfl) t
  unfold cutAfterComment
  rw [hbreak]
  cases breakOn "-->" t with
  | none => rfl
  | some cut =>
    have harrow : bytes "-->" = "-->".toList := bytes_of_all_isAscii (forall_isAscii rfl)
    simp only [Option.map_some, Prod.map_fst, Prod.map_snd, bytes_append, harrow]

theorem cutAfterMarkup_bytes {kind : TokenKind} {cs : Text} (h : Begins kind cs) :
    cutAfterMarkup kind (bytes cs) =
      (bytes (cutAfterMarkup kind cs).1, bytes (cutAfterMarkup kind cs).2) := by
  by_cases hcomment : kind = .comment
  · subst hcomment
    obtain ⟨body, rfl⟩ := h
    have hopening : bytes "<!--" = "<!--".toList := bytes_of_all_isAscii (forall_isAscii rfl)
    have hcut := cutAfterComment_bytes body
    have hbytes : bytes ("<!--" ++ (cutAfterComment body).1) =
        "<!--".toList ++ bytes (cutAfterComment body).1 := by rw [bytes_append, hopening]
    rw [bytes_append, hopening]
    change ("<!--".toList ++ (cutAfterComment (bytes body)).1, (cutAfterComment (bytes body)).2) =
      (bytes ("<!--".toList ++ (cutAfterComment body).1), bytes (cutAfterComment body).2)
    rw [hcut, hbytes]
  · rw [cutAfterMarkup_eq_cutAfterTag hcomment (head?_of_begins h),
      cutAfterMarkup_eq_cutAfterTag hcomment (head?_of_begins (begins_bytes.mpr h)),
      cutAfterTag_bytes (by simp)]

theorem cutBeforeClosing_append_of_not_isAscii (name bs t : Text)
    (hbs : ∀ d ∈ bs, ¬IsAscii d) :
    cutBeforeClosing name (bs ++ t) =
      (bs ++ (cutBeforeClosing name t).1, (cutBeforeClosing name t).2) := by
  induction bs with
  | nil => rfl
  | cons d bs ih =>
    have hne : lowerAscii ((d :: (bs ++ t)).take (name.length + 2)) ≠ "</" ++ name := by
      intro heq
      have hhead := head?_of_lowerAscii_take heq
      exact hbs d List.mem_cons_self (by rw [Option.some.inj hhead]; decide)
    rw [List.cons_append, cutBeforeClosing, if_neg hne,
      ih fun e he => hbs e (List.mem_cons_of_mem d he)]
    rfl

theorem cutBeforeClosing_bytes {name : Text} (hname : ∀ c ∈ name, IsAscii c) (cs : Text) :
    cutBeforeClosing name (bytes cs) =
      (bytes (cutBeforeClosing name cs).1, bytes (cutBeforeClosing name cs).2) := by
  have hpattern : ∀ c ∈ '<' :: '/' :: name, IsAscii c :=
    List.forall_mem_cons.mpr ⟨by decide, List.forall_mem_cons.mpr ⟨by decide, hname⟩⟩
  induction cs with
  | nil => rfl
  | cons c cs ih =>
    by_cases hc : IsAscii c
    · have hhere : lowerAscii ((c :: bytes cs).take (name.length + 2)) = "</" ++ name ↔
          lowerAscii ((c :: cs).take (name.length + 2)) = "</" ++ name := by
        rw [← bytes_cons_of_isAscii hc]
        exact lowerAscii_take_bytes hpattern (c :: cs)
      rw [bytes_cons_of_isAscii hc]
      unfold cutBeforeClosing
      simp only [hhere]
      split
      · rw [bytes_nil, bytes_cons_of_isAscii hc]
      · rw [ih, bytes_cons_of_isAscii hc]
    · have hone : cutBeforeClosing name (c :: cs) =
          (c :: (cutBeforeClosing name cs).1, (cutBeforeClosing name cs).2) :=
        cutBeforeClosing_append_of_not_isAscii name [c] cs
          fun d hd => List.mem_singleton.mp hd ▸ hc
      rw [bytes_cons, cutBeforeClosing_append_of_not_isAscii name _ _
        fun d => not_isAscii_of_mem_bytes hc, ih, hone, bytes_cons c (cutBeforeClosing name cs).1]

theorem rawTextAfter_bytes (t : Token) (cs : Text) :
    t.rawTextAfter (bytes cs) = (bytes (t.rawTextAfter cs).1, bytes (t.rawTextAfter cs).2) := by
  unfold rawTextAfter
  split
  · next hopens =>
    refine cutBeforeClosing_bytes ?_ cs
    rcases List.mem_pair.mp (name_of_opensRawText hopens) with hname | hname <;>
      exact forall_isAscii (by rw [hname]; rfl)
  · rfl

/-! ## Slices of tokens -/

theorem isAscii_of_isNameChar {c : Char} (h : isNameChar c = true) : IsAscii c := by
  simp only [isNameChar, Bool.or_eq_true, beq_iff_eq] at h
  rcases h with ((hc | rfl) | rfl) | rfl
  · exact isAscii_of_isAlphanum hc
  · decide
  · decide
  · decide

theorem takeWhile_isNameChar_bytes (t : Text) :
    (bytes t).takeWhile isNameChar = t.takeWhile isNameChar := by
  induction t with
  | nil => rfl
  | cons c t ih =>
    rcases bytes_cons_cases c t with ⟨hc, hbytes⟩ | ⟨hc, b, bs, hbytes, hb⟩
    · rw [hbytes, List.takeWhile_cons, List.takeWhile_cons, ih]
    · have hstop {d : Char} (hd : ¬IsAscii d) : ¬isNameChar d = true :=
        fun hname => hd (isAscii_of_isNameChar hname)
      rw [bytes_cons, hbytes, List.cons_append, List.takeWhile_cons_of_neg (hstop hc),
        List.takeWhile_cons_of_neg (hstop (hb b List.mem_cons_self))]

theorem byteSize_of_all_isAscii {t : Text} (h : ∀ c ∈ t, IsAscii c) : byteSize t = t.length := by
  rw [← length_bytes, bytes_of_all_isAscii h]

theorem isAscii_of_mem_opener {kind : TokenKind} : ∀ c ∈ opener kind, IsAscii c := by
  unfold opener
  split <;> exact forall_isAscii rfl

/-- What ends the text and does not occur before `inside` ends `inside`. -/
theorem exists_eq_concat {before inside : Text} {c : Char} (hbefore : c ∉ before)
    (hlast : (before ++ inside).getLast? = some c) : ∃ inner, inside = inner ++ [c] := by
  rcases List.eq_nil_or_concat inside with rfl | ⟨inner, d, rfl⟩
  · rw [List.append_nil] at hlast
    exact absurd (List.mem_of_getLast? hlast) hbefore
  · rw [List.concat_eq_append, ← List.append_assoc, List.getLast?_concat] at hlast
    exact ⟨inner, by rw [List.concat_eq_append, Option.some.inj hlast]⟩

theorem slice?_interior {text written inside : Text} (htext : text = '<' :: written ++ inside)
    (hwritten : ∀ c ∈ written, isNameChar c = true) (hlast : text.getLast? = some '>') :
    slice? text (1 + written.length) (byteSize text -
      if "/>".toList.isSuffixOf text ∧ 1 + written.length + 2 ≤ byteSize text then 2 else 1) =
      some (interior written text) := by
  have hname : byteSize ('<' :: written) = 1 + written.length := by
    rw [byteSize_cons, byteSize_of_all_isAscii fun c hc => isAscii_of_isNameChar (hwritten c hc)]
    rfl
  have hbefore {c : Char} (hc : c ≠ '<') (hchar : isNameChar c = false) : c ∉ '<' :: written := by
    intro hmem
    rcases List.mem_cons.mp hmem with heq | hmem
    · exact hc heq
    · simp [hwritten c hmem] at hchar
  subst htext
  obtain ⟨inner, rfl⟩ := exists_eq_concat (hbefore (by decide) (by decide)) hlast
  have hdrop : ('<' :: written ++ (inner ++ ['>'])).drop (written.length + 1) = inner ++ ['>'] :=
    List.drop_left
  by_cases hcloses : "/>".toList.isSuffixOf ('<' :: written ++ (inner ++ ['>'])) = true
  · obtain ⟨outer, houter⟩ := List.isSuffixOf_iff_suffix.mp hcloses
    have hslash : '<' :: written ++ inner = outer ++ ['/'] := by
      refine List.append_cancel_right (?_ : _ ++ ['>'] = _ ++ ['>'])
      rw [List.append_assoc, ← houter, List.append_assoc]
      rfl
    obtain ⟨inner, rfl⟩ := exists_eq_concat (hbefore (c := '/') (by decide) (by decide))
      (by rw [hslash, List.getLast?_concat])
    have hsize : byteSize ('<' :: written ++ (inner ++ ['/'] ++ ['>'])) =
        1 + written.length + byteSize inner + 2 := by
      rw [byteSize_append, hname, byteSize_append, byteSize_append]
      rfl
    have hinterior : interior written ('<' :: written ++ (inner ++ ['/'] ++ ['>'])) = inner := by
      rw [interior, hdrop, if_pos hcloses, List.append_assoc]
      simp
    rw [hinterior, hsize, if_pos ⟨hcloses, by omega⟩]
    exact slice?_eq_some_iff.mpr ⟨'<' :: written, ['/', '>'], by simp, hname, by omega⟩
  · have hsize : byteSize ('<' :: written ++ (inner ++ ['>'])) =
        1 + written.length + byteSize inner + 1 := by
      rw [byteSize_append, hname, byteSize_append]
      rfl
    have hinterior : interior written ('<' :: written ++ (inner ++ ['>'])) = inner := by
      rw [interior, hdrop, if_neg hcloses]
      simp
    rw [hinterior, hsize, if_neg fun hboth => hcloses hboth.1]
    exact slice?_eq_some_iff.mpr ⟨'<' :: written, ['>'], by simp, hname, by omega⟩

theorem ofTag?_eq {kind : TokenKind} (start : Nat) {text : Text}
    (hkind : kind = .tagOpen ∨ kind = .tagClose) (h : Begins kind text) :
    ofTag? kind start text = some (ofTag kind start text) := by
  obtain ⟨c, rest, htext, hc⟩ := exists_eq_of_begins hkind h
  have hopener : (opener kind).length = if kind = .tagClose then 2 else 1 := by
    unfold opener
    split <;> rfl
  have hdrop : text.drop (if kind = .tagClose then 2 else 1) = c :: rest := by
    rw [← hopener, htext, List.drop_left]
  have hname : ((bytes text).drop (if kind = .tagClose then 2 else 1)).takeWhile isNameChar =
      (c :: rest).takeWhile isNameChar := by
    rw [← hopener, htext, bytes_append, bytes_of_all_isAscii isAscii_of_mem_opener, List.drop_left,
      takeWhile_isNameChar_bytes]
  have hwritten : ∀ d ∈ (c :: rest).takeWhile isNameChar, isNameChar d = true :=
    List.all_eq_true.mp List.all_takeWhile
  have hne : (c :: rest).takeWhile isNameChar ≠ [] := by simp [hc]
  have hsplit : text = opener kind ++ (c :: rest).takeWhile isNameChar ++
      (c :: rest).dropWhile isNameChar := by
    rw [List.append_assoc, List.takeWhile_append_dropWhile, htext]
  unfold ofTag? ofTag
  simp only [hname, hdrop]
  generalize (c :: rest).takeWhile isNameChar = written at hwritten hne hsplit ⊢
  generalize (c :: rest).dropWhile isNameChar = inside at hsplit
  have hslice : slice? text (if kind = .tagClose then 2 else 1)
      ((if kind = .tagClose then 2 else 1) + written.length) = some written := by
    refine slice?_eq_some_iff.mpr ⟨opener kind, inside, hsplit, ?_, ?_⟩
    · rw [byteSize_of_all_isAscii isAscii_of_mem_opener, hopener]
    · rw [byteSize_of_all_isAscii isAscii_of_mem_opener, hopener,
        byteSize_of_all_isAscii fun d hd => isAscii_of_isNameChar (hwritten d hd)]
  have hlength : written.length ≠ 0 := fun hzero => hne (List.length_eq_zero_iff.mp hzero)
  have hempty : written.isEmpty = false := by simpa using hne
  simp only [hslice, Option.bind_eq_bind, Option.bind_some, Nat.add_eq_left, hlength, hempty,
    false_or, Bool.false_eq_true]
  by_cases hlast : text.getLast? = some '>'
  · rw [if_neg (not_not_intro hlast), if_neg (not_not_intro hlast)]
    rcases hkind with rfl | rfl
    · have hopening : text = '<' :: written ++ inside := hsplit
      have hinterior := slice?_interior hopening hwritten hlast
      simp only [reduceCtorEq, if_false, if_true, hinterior, Attribute.split?_eq, Option.bind_some]
    · rfl
  · rw [if_pos hlast, if_pos hlast]

theorem ofMarkup?_eq {source before text after : Text} {kind : TokenKind}
    (hsource : source = before ++ text ++ after) (h : Begins kind text) :
    ofMarkup? source kind (byteSize before) (byteSize before + byteSize text) =
      some (ofMarkup kind (byteSize before) text) := by
  have hslice : slice? source (byteSize before) (byteSize before + byteSize text) = some text :=
    slice?_eq_some_iff.mpr ⟨before, after, hsource, rfl, rfl⟩
  rw [ofMarkup?, hslice]
  unfold ofMarkup
  by_cases hkind : kind = .tagOpen ∨ kind = .tagClose
  · rw [if_pos hkind, ← ofTag?_eq _ hkind h]
    exact if_pos hkind
  · rw [if_neg hkind]
    exact if_neg hkind

theorem textToken?_eq {source before text after : Text}
    (hsource : source = before ++ text ++ after) :
    textToken? source (byteSize before) (byteSize before + byteSize text) =
      some (textToken (byteSize before) text) := by
  have hslice : slice? source (byteSize before) (byteSize before + byteSize text) = some text :=
    slice?_eq_some_iff.mpr ⟨before, after, hsource, rfl, rfl⟩
  unfold textToken? textToken
  cases text with
  | nil => exact if_neg (Nat.lt_irrefl _)
  | cons c text =>
    have hpos : 0 < byteSize (c :: text) := Nat.lt_of_lt_of_le c.utf8Size_pos (Nat.le_add_right _ _)
    rw [if_pos (by omega), hslice]
    rfl

/-! ## The scan of a template -/

theorem cutBeforeMarkup_of_edge {cs : Text} (h : cs = [] ∨ (markup? cs).isSome) :
    cutBeforeMarkup cs = ([], cs) := by
  cases cs with
  | nil => rfl
  | cons c cs => exact if_pos (h.resolve_left nofun)

theorem lexFrom_eq_textToken_append (start : Nat) (cs : Text) :
    lexFrom start cs = textToken start (cutBeforeMarkup cs).1 ++
      lexFrom (start + byteSize (cutBeforeMarkup cs).1) (cutBeforeMarkup cs).2 := by
  rcases cs with _ | ⟨c, cs⟩
  · rfl
  · cases hmarkup : markup? (c :: cs) with
    | none =>
      have hcut : cutBeforeMarkup (c :: cs) =
          (c :: (cutBeforeMarkup cs).1, (cutBeforeMarkup cs).2) := if_neg (by simp [hmarkup])
      rw [lexFrom_of_markup?_none hmarkup, hcut]
      rfl
    | some kind =>
      rw [cutBeforeMarkup_of_edge (.inr (by simp [hmarkup]))]
      rfl

/-- The tokens from offset `start` on, where no markup begins in the text `pending`. -/
def lexPending (start : Nat) (pending cs : Text) : List Token :=
  let run := pending ++ (cutBeforeMarkup cs).1
  textToken start run ++ lexFrom (start + byteSize run) (cutBeforeMarkup cs).2

theorem lexPending_of_edge {cs : Text} (h : cs = [] ∨ (markup? cs).isSome) (start : Nat)
    (pending : Text) :
    lexPending start pending cs =
      textToken start pending ++ lexFrom (start + byteSize pending) cs := by
  simp only [lexPending, cutBeforeMarkup_of_edge h, List.append_nil]

theorem lexPending_cons {c : Char} {cs : Text} (h : markup? (c :: cs) = none) (start : Nat)
    (pending : Text) :
    lexPending start pending (c :: cs) = lexPending start (pending ++ [c]) cs := by
  have hcut : cutBeforeMarkup (c :: cs) = (c :: (cutBeforeMarkup cs).1, (cutBeforeMarkup cs).2) :=
    if_neg (by simp [h])
  simp only [lexPending, hcut, List.append_assoc, List.singleton_append]

theorem lexPending_rawTextAfter (t : Token) (start : Nat) (cs : Text) :
    lexPending start (t.rawTextAfter cs).1 (t.rawTextAfter cs).2 =
      textToken start (t.rawTextAfter cs).1 ++
        lexFrom (start + byteSize (t.rawTextAfter cs).1) (t.rawTextAfter cs).2 := by
  by_cases hopens : t.opensRawText = true
  · exact lexPending_of_edge (markup?_rawTextAfter cs hopens) _ _
  · have hnone : t.rawTextAfter cs = ([], cs) := if_neg hopens
    rw [hnone]
    exact (lexFrom_eq_textToken_append start cs).symm

theorem scanFrom?_of_markup?_none {source bs : Text} {b : Char} (h : markup? (b :: bs) = none)
    (start i : Nat) : scanFrom? source start i (b :: bs) = scanFrom? source start (i + 1) bs := by
  conv => lhs; unfold scanFrom?
  simp only [h]

theorem scanFrom?_of_markup?_some {source bs : Text} {kind : TokenKind}
    (h : markup? bs = some kind) (start i : Nat) :
    scanFrom? source start i bs = (do
      let text ← textToken? source start i
      let cut := cutAfterMarkup kind bs
      let stop := i + cut.1.length
      let token ← ofMarkup? source kind i stop
      let raw := token.rawTextAfter cut.2
      let tokens ← scanFrom? source stop (stop + raw.1.length) raw.2
      some (text ++ token :: tokens)) := by
  obtain ⟨rest, rfl⟩ := List.head?_eq_some_iff.mp (head?_of_begins (begins_of_markup? h))
  conv => lhs; unfold scanFrom?
  simp only [h]

/-- The scan passes a character that begins no markup with all its bytes. -/
theorem scanFrom?_bytes_of_none {source cs : Text} {c : Char} (h : markup? (c :: cs) = none)
    (start i : Nat) :
    scanFrom? source start i (bytes (c :: cs)) =
      scanFrom? source start (i + c.utf8Size) (bytes cs) := by
  by_cases hc : IsAscii c
  · rw [← markup?_bytes, bytes_cons_of_isAscii hc] at h
    rw [bytes_cons_of_isAscii hc, scanFrom?_of_markup?_none h, utf8Size_of_isAscii hc]
  · have hpass {bs : Text} (hbs : ∀ d ∈ bs, ¬IsAscii d) (i : Nat) :
        scanFrom? source start i (bs ++ bytes cs) =
          scanFrom? source start (i + bs.length) (bytes cs) := by
      induction bs generalizing i with
      | nil => rfl
      | cons d bs ih =>
        have hnone : markup? (d :: (bs ++ bytes cs)) = none := by
          by_contra hsome
          have hhead := head?_of_markup? (Option.isSome_iff_ne_none.mpr hsome)
          exact hbs d List.mem_cons_self (by rw [Option.some.inj hhead]; decide)
        rw [List.cons_append, scanFrom?_of_markup?_none hnone,
          ih fun e he => hbs e (List.mem_cons_of_mem d he), List.length_cons, Nat.add_assoc,
          Nat.add_comm 1]
    have hlength : (bytes [c]).length = c.utf8Size := length_bytes [c]
    rw [bytes_cons, hpass (fun d => not_isAscii_of_mem_bytes hc), hlength]

/-- Between two characters the scan gives the tokens of the text that is pending and of the rest. No
slice fails on the way. -/
theorem scanFrom?_eq (before pending cs : Text) {source : Text}
    (hsource : source = before ++ pending ++ cs) :
    scanFrom? source (byteSize before) (byteSize before + byteSize pending) (bytes cs) =
      some (lexPending (byteSize before) pending cs) := by
  induction hn : cs.length using Nat.strongRecOn generalizing before pending cs with
  | ind n ih =>
    have hpending := textToken?_eq hsource
    rcases cs with _ | ⟨c, cs⟩
    · rw [lexPending_of_edge (.inl rfl), bytes_nil]
      unfold scanFrom? lexFrom
      rw [hpending, List.append_nil]
    · cases hmarkup : markup? (c :: cs) with
      | none =>
        rw [scanFrom?_bytes_of_none hmarkup, lexPending_cons hmarkup]
        have hrest :=
          ih cs.length (by simp [← hn]) before (pending ++ [c]) cs (by simp [hsource]) rfl
        rwa [byteSize_append, ← Nat.add_assoc] at hrest
      | some kind =>
        have hbegins := begins_of_markup? hmarkup
        have hbytes : markup? (bytes (c :: cs)) = some kind := by rw [markup?_bytes, hmarkup]
        have hcut := cutAfterMarkup_bytes hbegins
        have happend := append_cutAfterMarkup kind (c :: cs)
        have hlt := length_cutAfterMarkup_lt kind c cs
        have htag : Begins kind (cutAfterMarkup kind (c :: cs)).1 := begins_cutAfterMarkup hbegins
        have hlex := lexFrom_of_markup?_some hmarkup (byteSize before + byteSize pending)
        rw [scanFrom?_of_markup?_some hbytes, hpending, hcut,
          lexPending_of_edge (.inr (by simp [hmarkup])), hlex]
        generalize cutAfterMarkup kind (c :: cs) = cut at happend hlt htag ⊢
        rw [← byteSize_append]
        have hcutSource : source = before ++ pending ++ cut.1 ++ cut.2 := by
          rw [List.append_assoc _ cut.1, happend, hsource]
        have htoken : ofMarkup? source kind (byteSize (before ++ pending))
            (byteSize (before ++ pending) + byteSize cut.1) =
              some (ofMarkup kind (byteSize (before ++ pending)) cut.1) :=
          ofMarkup?_eq hcutSource htag
        simp only [length_bytes, htoken, Option.bind_eq_bind, Option.bind_some, rawTextAfter_bytes]
        generalize htok : ofMarkup kind (byteSize (before ++ pending)) cut.1 = token
        have hstop : token.stop = byteSize (before ++ pending ++ cut.1) := by
          rw [← htok, stop, ofMarkup_start, ofMarkup_text, ← byteSize_append]
        have hraw := append_rawTextAfter token cut.2
        have hlength : (token.rawTextAfter cut.2).2.length < n := by
          have hle := congrArg List.length hraw
          rw [List.length_append] at hle
          omega
        have hrest := ih _ hlength (before ++ pending ++ cut.1) (token.rawTextAfter cut.2).1
          (token.rawTextAfter cut.2).2 (by rw [List.append_assoc _ _ (token.rawTextAfter cut.2).2,
            hraw, hcutSource]) rfl
        rw [← byteSize_append, hrest, lexPending_rawTextAfter, hstop]
        rfl

/-- The scan by bytes takes no slice out of range or inside a character, and gives the tokens of the
template. -/
theorem scan?_eq_lex (source : Text) : scan? source = some (lex source) := by
  rw [scan?, lex, lexFrom_eq_textToken_append]
  exact scanFrom?_eq [] [] source rfl

/-! ## Tiling -/

/-- The tokens cut the template at character boundaries into pieces that are not empty, from its
first byte to its last. -/
structure Tiles (source : Text) (ts : List Token) : Prop where
  nonempty : ∀ t ∈ ts, t.start < t.stop
  slice : ∀ t ∈ ts, slice? source t.start t.stop = some t.text
  contiguous : Contiguous 0 ts
  stop : ∀ t ∈ ts.getLast?, t.stop = byteSize source
  eq_nil_iff : ts = [] ↔ source = []
  texts : ts.flatMap (·.text) = source

theorem cutAfterMarkup_ne_nil (kind : TokenKind) (c : Char) (cs : Text) :
    (cutAfterMarkup kind (c :: cs)).1 ≠ [] := by
  intro hnil
  have hlt := length_cutAfterMarkup_lt kind c cs
  have happend := append_cutAfterMarkup kind (c :: cs)
  rw [hnil, List.nil_append] at happend
  rw [happend] at hlt
  exact Nat.lt_irrefl _ hlt

theorem text_ne_nil_of_mem_lexFrom (start : Nat) (cs : Text) :
    ∀ t ∈ lexFrom start cs, t.text ≠ [] := by
  induction start, cs using lexFrom_induction with
  | nil start => exact fun t ht => absurd ht List.not_mem_nil
  | text start c cs rest hmarkup ih => exact List.forall_mem_cons.mpr ⟨nofun, ih⟩
  | markup start c cs kind rest hmarkup cut token raw ih =>
    rw [List.cons_append, List.forall_mem_cons, List.forall_mem_append]
    refine ⟨?_, ?_, ih⟩
    · rw [ofMarkup_text]
      exact cutAfterMarkup_ne_nil kind c cs
    · intro t ht
      unfold textToken at ht
      split at ht
      · exact absurd ht List.not_mem_nil
      · next hraw =>
        rw [List.mem_singleton.mp ht]
        exact fun hnil => hraw (List.isEmpty_iff.mpr hnil)

theorem stop_of_contiguous {start : Nat} {ts : List Token} (h : Contiguous start ts) :
    ∀ t ∈ ts.getLast?, t.stop = start + byteSize (ts.flatMap (·.text)) := by
  induction ts generalizing start with
  | nil => exact fun t ht => absurd ht (Option.not_mem_none t)
  | cons u ts ih =>
    obtain ⟨rfl, hrest⟩ := h
    intro t ht
    rw [List.flatMap_cons, byteSize_append, ← Nat.add_assoc]
    cases ts with
    | nil =>
      obtain rfl : u = t := Option.some.inj ht
      rfl
    | cons v ts => exact ih hrest t ht

/-- The tokens of a template tile it, and scanning its bytes finds them without a slice that
fails. -/
theorem tiles_lex (source : Text) :
    Tiles source (lex source) ∧ scan? source = some (lex source) := by
  have htexts := texts_lex source
  have hcontiguous := contiguous_lex source
  have hne := text_ne_nil_of_mem_lexFrom 0 source
  have hfirst : Contiguous (byteSize []) (lex source) := hcontiguous
  have hspan := isSpanOf_of_contiguous hfirst
  rw [htexts] at hspan
  refine ⟨⟨fun t ht => ?_, fun t ht => ?_, hcontiguous, fun t ht => ?_, ?_, htexts⟩, ?_⟩
  · obtain ⟨c, text, htext⟩ := List.exists_cons_of_ne_nil (hne t ht)
    have hpos := c.utf8Size_pos
    rw [stop, htext, byteSize_cons]
    omega
  · obtain ⟨before, after, hsource, hstart⟩ := hspan t ht
    exact slice?_eq_some_iff.mpr ⟨before, after, hsource, hstart, by rw [stop, hstart]⟩
  · rw [stop_of_contiguous hcontiguous t ht, htexts, Nat.zero_add]
  · constructor
    · intro hnil
      rw [← htexts, hnil]
      rfl
    · rintro rfl
      unfold lex lexFrom
      rfl
  · exact scan?_eq_lex source

end Token

end HtmlTemplate
