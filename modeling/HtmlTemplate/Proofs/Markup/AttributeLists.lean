import HtmlTemplate.Proofs.Markup.Chunks
import HtmlTemplate.Proofs.Text.Trimming

/-!
Attributes as they are written. A key alone, a key with a value, or a key with a value in quotes is
one piece of the inside of a tag (`Written.isPiece`) and is read as the attribute that was written
(`ofChunk_text`). Blanks around an equals sign do not split, so a value that ends in one takes in
the attribute after it; a list of attributes is read as it is written exactly if none but the last
has such a value (`split_join_iff`).
-/

namespace HtmlTemplate

namespace Attribute
open Text Token

/-- A text that is a key as it stands. -/
structure IsKey (key : Text) : Prop where
  ne_nil : key ≠ []
  plain : ∀ c ∈ key, isBlank c = false ∧ isQuote c = false ∧ c ≠ '='
  ne_slash : key ≠ ['/']

instance (key : Text) : Decidable (IsKey key) :=
  decidable_of_iff (key ≠ [] ∧ (key.all fun c => !isBlank c && (!isQuote c && c != '=')) ∧
      key ≠ ['/'])
    ⟨fun h => ⟨h.1, by simpa using h.2.1, h.2.2⟩,
      fun h => ⟨h.ne_nil, by simpa using h.plain, h.ne_slash⟩⟩

inductive WrittenValue
  | absent
  | unquoted (value : Text) (ne_nil : value ≠ [])
      (plain : ∀ c ∈ value, isBlank c = false ∧ isQuote c = false)
  | quoted (quote : Char) (value : Text) (isQuote : isQuote quote = true) (free : quote ∉ value)

namespace WrittenValue

def text : WrittenValue → Text
  | absent => []
  | unquoted value _ _ => '=' :: value
  | quoted quote value _ _ => '=' :: quote :: value ++ [quote]

/-- The blank after such a value follows an equals sign and does not end it. -/
def endsInEquals : WrittenValue → Bool
  | unquoted value _ _ => value.getLast? == some '='
  | _ => false

end WrittenValue

/-- An attribute in the parts it is written in. -/
structure Written where
  key : Text
  value : WrittenValue
  isKey : IsKey key := by decide

namespace Written

def text (w : Written) : Text := w.key ++ w.value.text

def meant (w : Written) : Attribute :=
  match w.value with
  | .absent => ⟨lowerAscii w.key, none, none, false, w.text⟩
  | .unquoted value _ _ => ⟨lowerAscii w.key, some value, none, false, w.text⟩
  | .quoted quote value _ _ => ⟨lowerAscii w.key, some value, some quote, true, w.text⟩

end Written

/-! ## Reading one attribute -/

theorem all_ne_equals {t : Text} (h : '=' ∉ t) : t.all (· != '=') = true :=
  List.all_eq_true.mpr fun _ hc => bne_iff_ne.mpr fun heq => h (heq ▸ hc)

theorem ofChunk_of_not_mem {chunk : Text} (h : '=' ∉ chunk) :
    ofChunk chunk = ⟨lowerAscii chunk, none, none, false, chunk⟩ := by
  have hstop : ∀ c ∈ ([] : Text).head?, (c != '=') = false := by simp
  have hdrop := (takeWhile_append (all_ne_equals h) hstop).2
  rw [List.append_nil] at hdrop
  rw [ofChunk, hdrop]

section KeyValue

variable {chunk key after inside : Text} {q : Char} (h : chunk = key ++ '=' :: after)
  (hkey : '=' ∉ key)
include h hkey

/-- The first equals sign ends the key. -/
theorem key_of_eq_append :
    chunk.takeWhile (· != '=') = key ∧ chunk.dropWhile (· != '=') = '=' :: after := by
  have hstop : ∀ c ∈ ('=' :: after).head?, (c != '=') = false := by simp
  rw [h]
  exact takeWhile_append (all_ne_equals hkey) hstop

theorem ofChunk_of_empty (hvalue : trimStart after = []) :
    ofChunk chunk = ⟨lowerAscii (trim key), some [], none, false, chunk⟩ := by
  obtain ⟨htake, hdrop⟩ := key_of_eq_append h hkey
  simp [ofChunk, htake, hdrop, hvalue]

theorem ofChunk_of_unquoted (hvalue : trimStart after = q :: inside) (hq : isQuote q = false) :
    ofChunk chunk = ⟨lowerAscii (trim key), some (q :: inside), none, false, chunk⟩ := by
  obtain ⟨htake, hdrop⟩ := key_of_eq_append h hkey
  simp [ofChunk, htake, hdrop, hvalue, hq]

theorem ofChunk_of_quoted (hvalue : trimStart after = q :: (inside ++ [q]))
    (hq : isQuote q = true) :
    ofChunk chunk = ⟨lowerAscii (trim key), some inside, some q, true, chunk⟩ := by
  obtain ⟨htake, hdrop⟩ := key_of_eq_append h hkey
  simp [ofChunk, htake, hdrop, hvalue, hq]

/-- A missing end quote is tolerated. -/
theorem ofChunk_of_open_quote (hvalue : trimStart after = q :: inside) (hq : isQuote q = true)
    (hlast : inside.getLast? ≠ some q) :
    ofChunk chunk = ⟨lowerAscii (trim key), some inside, some q, false, chunk⟩ := by
  obtain ⟨htake, hdrop⟩ := key_of_eq_append h hkey
  simp [ofChunk, htake, hdrop, hvalue, hq, hlast]

end KeyValue

/-- Every blank of the text is inside quotes if this quote is open before it. -/
def HidesBlanks (open? : Option Char) : Text → Prop
  | [] => True
  | c :: cs => (open? = none → isBlank c = false) ∧ HidesBlanks (nextQuote open? c) cs

theorem hidesBlanks_append {open? : Option Char} {s t : Text} :
    HidesBlanks open? (s ++ t) ↔ HidesBlanks open? s ∧ HidesBlanks (s.foldl nextQuote open?) t := by
  induction s generalizing open? with
  | nil => simp [HidesBlanks]
  | cons c s ih => simp [HidesBlanks, ih, and_assoc]

/-- A text without blanks outside of quotes makes the unfinished chunk longer. -/
theorem chunksAfter_append {open? : Option Char} {t : Text} (h : HidesBlanks open? t)
    (chunk rest : Text) : chunksAfter open? chunk [] (t ++ rest) =
      chunksAfter (t.foldl nextQuote open?) (t.reverse ++ chunk) [] rest := by
  induction t generalizing open? chunk with
  | nil => rfl
  | cons c t ih =>
    have hink : ¬(open?.isNone && isBlank c) = true := by
      intro hblank
      obtain ⟨hnone, hc⟩ := by simpa using hblank
      simp [h.1 hnone] at hc
    rw [List.cons_append, chunksAfter, if_neg hink, if_pos (by simp), ih h.2]
    simp

theorem isPiece_of_hidesBlanks {t : Text} (hne : t ≠ []) (h : HidesBlanks none t) : IsPiece t where
  starts := by
    obtain ⟨c, cs, rfl⟩ := List.exists_cons_of_ne_nil hne
    exact ⟨c, cs, rfl, h.1 rfl⟩
  reads rest := by
    rw [chunksAfter_append h, List.append_nil]
    rfl

/-- Text without blanks and quotes leaves no quote open. -/
theorem hidesBlanks_of_plain {t : Text} (h : ∀ c ∈ t, isBlank c = false ∧ isQuote c = false) :
    HidesBlanks none t ∧ t.foldl nextQuote none = none := by
  induction t with
  | nil => exact ⟨trivial, rfl⟩
  | cons c t ih =>
    obtain ⟨⟨hblank, hquote⟩, ht⟩ := List.forall_mem_cons.mp h
    have hnext : nextQuote none c = none := by simp [nextQuote, hquote]
    rw [HidesBlanks, List.foldl_cons, hnext]
    exact ⟨⟨fun _ => hblank, (ih ht).1⟩, (ih ht).2⟩

/-- An open quote stays open up to the next quote of its kind. -/
theorem hidesBlanks_of_not_mem {quote : Char} {t : Text} (h : quote ∉ t) :
    HidesBlanks (some quote) t ∧ t.foldl nextQuote (some quote) = some quote := by
  induction t with
  | nil => exact ⟨trivial, rfl⟩
  | cons c t ih =>
    obtain ⟨hne, ht⟩ := not_or.mp (mt List.mem_cons.mpr h)
    have hnext : nextQuote (some quote) c = some quote := by simp [nextQuote, Ne.symm hne]
    rw [HidesBlanks, List.foldl_cons, hnext]
    exact ⟨⟨by simp, (ih ht).1⟩, (ih ht).2⟩

namespace Written

variable (w : Written)

theorem plain_key : ∀ c ∈ w.key, isBlank c = false ∧ isQuote c = false :=
  fun c hc => ⟨(w.isKey.plain c hc).1, (w.isKey.plain c hc).2.1⟩

theorem text_ne_nil : w.text ≠ [] := by
  simp [text, w.isKey.ne_nil]

/-- The blanks of an attribute are inside its quotes, which are closed. -/
theorem hidesBlanks_text : HidesBlanks none w.text ∧ openAfter w.text = none := by
  obtain ⟨hkey, hclosed⟩ := hidesBlanks_of_plain w.plain_key
  suffices hvalue : HidesBlanks none w.value.text ∧ w.value.text.foldl nextQuote none = none by
    refine ⟨hidesBlanks_append.mpr ⟨hkey, hclosed.symm ▸ hvalue.1⟩, ?_⟩
    rw [openAfter, text, List.foldl_append, hclosed, hvalue.2]
  cases w.value with
  | absent => exact ⟨trivial, rfl⟩
  | unquoted value ne_nil plain =>
    exact hidesBlanks_of_plain (List.forall_mem_cons.mpr ⟨by decide, plain⟩)
  | quoted quote value isQuote free =>
    obtain ⟨hvalue, hopen⟩ := hidesBlanks_of_not_mem free
    have hequals : nextQuote none '=' = none := rfl
    have hfirst : nextQuote none quote = some quote := by simp [nextQuote, isQuote]
    have hlast : nextQuote (some quote) quote = none := by simp [nextQuote]
    simp only [WrittenValue.text, List.cons_append, HidesBlanks, List.foldl_cons, hequals, hfirst,
      hidesBlanks_append, List.foldl_append, hopen, List.foldl_nil, hlast]
    exact ⟨⟨fun _ => rfl, fun _ => not_isBlank_of_isQuote isQuote, hvalue, by simp, trivial⟩,
      trivial⟩

theorem isPiece : IsPiece w.text := isPiece_of_hidesBlanks w.text_ne_nil w.hidesBlanks_text.1

theorem head?_text : w.text.head? ≠ some '=' := by
  obtain ⟨c, cs, hkey⟩ := List.exists_cons_of_ne_nil w.isKey.ne_nil
  have hc := (w.isKey.plain c (by simp [hkey])).2.2
  simpa [text, hkey] using hc

theorem text_ne_slash : w.text ≠ ['/'] := by
  intro heq
  cases hvalue : w.value with
  | absent =>
    rw [text, hvalue, WrittenValue.text, List.append_nil] at heq
    exact w.isKey.ne_slash heq
  | unquoted value ne_nil plain =>
    have hmem : '=' ∈ w.text := by simp [text, hvalue, WrittenValue.text]
    rw [heq] at hmem
    exact absurd hmem (by decide)
  | quoted quote value isQuote free =>
    have hmem : '=' ∈ w.text := by simp [text, hvalue, WrittenValue.text]
    rw [heq] at hmem
    exact absurd hmem (by decide)

/-- Keys have no equals sign and quoted values end in a quote. -/
theorem getLast?_text : w.text.getLast? = some '=' ↔ w.value.endsInEquals = true := by
  cases hvalue : w.value with
  | absent =>
    simp only [text, hvalue, WrittenValue.text, List.append_nil, WrittenValue.endsInEquals,
      Bool.false_eq_true, iff_false]
    exact fun hlast => (w.isKey.plain '=' (List.mem_of_getLast? hlast)).2.2 rfl
  | unquoted value ne_nil plain =>
    obtain ⟨init, c, rfl⟩ := (List.eq_nil_or_concat value).resolve_left ne_nil
    simp [text, hvalue, WrittenValue.text, WrittenValue.endsInEquals, List.getLast?_append,
      List.getLast?_cons]
  | quoted quote value isQuote free =>
    have hne : quote ≠ '=' := by
      rintro rfl
      cases isQuote
    simp [text, hvalue, WrittenValue.text, WrittenValue.endsInEquals, List.getLast?_append,
      List.getLast?_cons, hne]

/-- The text is read as the attribute that is meant. -/
theorem ofChunk_text : ofChunk w.text = w.meant := by
  have hkey : '=' ∉ w.key := fun hmem => (w.isKey.plain '=' hmem).2.2 rfl
  have htrim : trim w.key = w.key := trim_of_forall fun c hc => (w.isKey.plain c hc).1
  cases hvalue : w.value with
  | absent =>
    have htext : w.text = w.key := by simp [text, hvalue, WrittenValue.text]
    rw [ofChunk_of_not_mem (htext ▸ hkey), meant, hvalue, htext]
  | unquoted value ne_nil plain =>
    have htext : w.text = w.key ++ '=' :: value := by rw [text, hvalue, WrittenValue.text]
    obtain ⟨c, cs, rfl⟩ := List.exists_cons_of_ne_nil ne_nil
    obtain ⟨hblank, hquote⟩ := plain c List.mem_cons_self
    rw [ofChunk_of_unquoted htext hkey (trimStart_cons hblank cs) hquote, htrim, meant, hvalue]
  | quoted quote value isQuote free =>
    have htext : w.text = w.key ++ '=' :: quote :: (value ++ [quote]) := by
      simp [text, hvalue, WrittenValue.text]
    have hstart := trimStart_cons (not_isBlank_of_isQuote isQuote) (value ++ [quote])
    rw [ofChunk_of_quoted htext hkey hstart isQuote, htrim, meant, hvalue]

end Written

/-! ## Lists of attributes -/

/-- Only the last chunk ends in an equals sign. -/
theorem getLast?_of_chunksAfter (open? : Option Char) (chunk gap cs : Text) :
    (chunksAfter open? chunk gap cs).Pairwise fun r _ => r.getLast? ≠ some '=' := by
  induction cs generalizing open? chunk gap with
  | nil =>
    rw [chunksAfter]
    split
    · exact .nil
    · exact List.pairwise_singleton _ _
  | cons c cs ih =>
    rw [chunksAfter]
    split
    · exact ih ..
    · split
      · exact ih ..
      · next hsplit =>
        have hlast : chunk.reverse.getLast? ≠ some '=' := by
          rw [List.getLast?_reverse]
          simp at hsplit
          exact hsplit.2
        exact List.pairwise_cons.mpr ⟨fun _ _ => hlast, ih ..⟩

/-- What holds of each item in front of another one holds of all but the last. -/
theorem pairwise_left_iff {α : Type} {p : α → Prop} {xs : List α} :
    xs.Pairwise (fun x _ => p x) ↔ ∀ x ∈ xs.dropLast, p x := by
  induction xs with
  | nil => simp
  | cons x xs ih =>
    rw [List.pairwise_cons, ih]
    cases xs with
    | nil => simp
    | cons y xs =>
      have hlast : (x :: y :: xs).dropLast = x :: (y :: xs).dropLast := rfl
      simp only [hlast, List.forall_mem_cons]
      exact and_congr_left' (and_iff_left_of_imp fun hx _ _ => hx)

theorem joined_eq_cons_join {r : Text} (rs : List Text) :
    joined (r :: rs) = ' ' :: Text.join [' '] (r :: rs) := by
  induction rs generalizing r with
  | nil => simp [Text.join]
  | cons s rs ih =>
    rw [joined_cons, ih]
    simp [Text.join, List.intercalate_cons_cons]

/-- A blank at the start is no part of a chunk. -/
theorem chunks_join (rs : List Text) : chunks (Text.join [' '] rs) = chunks (joined rs) := by
  cases rs with
  | nil => rfl
  | cons r rs =>
    rw [joined_eq_cons_join]
    rfl

/-- Attributes joined by blanks are read as they are written exactly if none but the last has an
unquoted value that ends in an equals sign. -/
theorem split_join_iff (ws : List Written) :
    split (Text.join [' '] (ws.map Written.text)) = ws.map Written.meant ↔
      ∀ w ∈ ws.dropLast, w.value.endsInEquals = false := by
  have hraw (w : Written) : w.meant.raw = w.text := by rw [← w.ofChunk_text, raw_ofChunk]
  have hraws : (ws.map Written.meant).map raw = ws.map Written.text := by simp [hraw]
  rw [← pairwise_left_iff]
  constructor
  · intro hsplit
    have hlast := getLast?_of_chunksAfter none [] [] (Text.join [' '] (ws.map Written.text))
    have hchunks := map_raw_split (Text.join [' '] (ws.map Written.text))
    rw [hsplit, hraws] at hchunks
    have htexts := hlast.filter (· != ['/'])
    change (List.filter _ (chunks _)).Pairwise _ at htexts
    rw [← hchunks, List.pairwise_map] at htexts
    refine htexts.imp fun {w _} h => ?_
    rwa [Ne, w.getLast?_text, Bool.not_eq_true] at h
  · intro hends
    have hapart : (ws.map Written.text).Pairwise Apart := by
      rw [List.pairwise_map]
      refine hends.imp fun {w u} h => ⟨w.hidesBlanks_text.2, ?_, u.head?_text⟩
      simp [w.getLast?_text, h]
    have hpieces : ∀ r ∈ ws.map Written.text, IsPiece r :=
      List.forall_mem_map.mpr fun w _ => w.isPiece
    refine split_eq_of_chunks_eq (List.forall_mem_map.mpr fun w _ => ?_) ?_
    · rw [hraw]
      exact ⟨w.ofChunk_text, w.text_ne_slash⟩
    · rw [chunks_join, chunks_joined hpieces hapart, hraws]

/-- A value that ends in an equals sign takes in the condition after it. -/
theorem split_join_ne :
    let ws : List Written :=
      [{ key := "href"
         value := .unquoted "?q=" (by decide) (List.forall_iff_forall_mem.mp (by decide)) },
        { key := "data-if", value := .quoted '"' "x" rfl (by decide) }]
    split (Text.join [' '] (ws.map Written.text)) =
        [⟨"href", some "?q= data-if=\"x\"", none, false, "href=?q= data-if=\"x\""⟩] ∧
      split (Text.join [' '] (ws.map Written.text)) ≠ ws.map Written.meant := by
  decide

end Attribute

end HtmlTemplate
