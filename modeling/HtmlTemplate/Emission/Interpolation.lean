import HtmlTemplate.Emission.Basic

/-!
Interpolations in text: an expression between braces after `#`, to be escaped, or after `!`, to be
written raw. Handlers follow the expression, each after a bar or a comma. Braces around nothing
and braces that are not closed are text.
-/

namespace HtmlTemplate

/-- A part of a literal: text, or what stands between the braces of an interpolation. -/
inductive Fragment
  | text (t : Text)
  | interpolation (escaped : Bool) (content : Text)
deriving DecidableEq

namespace Fragment

/-- The fragment as written. -/
def source : Fragment → Text
  | text t => t
  | interpolation escaped content =>
    (if escaped then '#' else '!') :: '\x7b' :: content ++ ['\x7d']

/-- The content of the interpolation with which the text starts, and what follows it. -/
def interpolation? : Text → Option (Bool × Text × Text)
  | sigil :: '\x7b' :: cs =>
    if sigil = '#' ∨ sigil = '!' then
      match cs.dropWhile (· != '\x7d') with
      | [] => none
      | _ :: rest =>
        if (cs.takeWhile (· != '\x7d')).isEmpty then none
        else some (sigil == '#', cs.takeWhile (· != '\x7d'), rest)
    else none
  | _ => none

theorem length_lt_of_interpolation? {cs content rest : Text} {escaped : Bool}
    (h : interpolation? cs = some (escaped, content, rest)) : rest.length < cs.length := by
  unfold interpolation? at h
  split at h
  · next sigil cs =>
    split at h
    · split at h
      · simp at h
      · next d tail hdrop =>
        split at h
        · simp at h
        · simp only [Option.some.injEq, Prod.mk.injEq] at h
          have hle : (cs.dropWhile (· != '\x7d')).length ≤ cs.length :=
            (List.dropWhile_suffix _).length_le
          rw [hdrop] at hle
          simp only [List.length_cons] at hle ⊢
          rw [← h.2.2]
          omega
    · simp at h
  · simp at h

def consChar (c : Char) : List Fragment → List Fragment
  | text t :: fragments => text (c :: t) :: fragments
  | fragments => text [c] :: fragments

/-- The fragments of a literal. No two texts are neighbours. -/
def split : Text → List Fragment
  | [] => []
  | c :: cs =>
    match _h : interpolation? (c :: cs) with
    | some (escaped, content, rest) => interpolation escaped content :: split rest
    | none => consChar c (split cs)
termination_by cs => cs.length
decreasing_by
  · exact length_lt_of_interpolation? _h
  · simp

end Fragment

namespace Variable

def isHandlerMark (c : Char) : Bool := c == '|' || c == ','

/-- The interpolation with the given content. Escaping is one more handler, and the last. -/
def ofContent (escaped : Bool) (content : Text) : Variable :=
  let listed := ((content.dropWhile (!isHandlerMark ·)).drop 1)
  let names := ((Text.splitWhere isHandlerMark listed).map Text.trim).filter (!·.isEmpty)
  ⟨Text.trim (content.takeWhile (!isHandlerMark ·)),
    if escaped then names ++ ["escape".toList] else names⟩

end Variable

namespace Emission

def writeFragment (s : Emission) : Fragment → Emission
  | .text t => s.write t
  | .interpolation escaped content => s.writeVariable (.ofContent escaped content)

def writeLiteral (s : Emission) (t : Text) : Emission := (Fragment.split t).foldl writeFragment s

end Emission

end HtmlTemplate
