import Mathlib.Data.List.Infix
import Mathlib.Tactic.Common

/-!
# Lib.Matches

The matches of a pattern in a text, one behind the other, as an iterator over a regular expression
finds them. The pattern is a reader: what it matches at the start of a text, and the text behind.

* `allMatches read s`: what `read` matches in `s`, from left to right and without overlap.
* `allMatches_skip`, `allMatches_here`: the search passes over a text where nothing matches, and
  goes on behind a match.
* `allMatches_flatMap`: the matches of a text made of blocks are those of its blocks.
-/

namespace Matches

variable {α β : Type}

/-- The matches from the position `skip` on. -/
def matchesFrom (read : List α → Option (β × List α)) : Nat → List α → List β
  | _, [] => []
  | skip + 1, _ :: s => matchesFrom read skip s
  | 0, c :: s =>
    match read (c :: s) with
    | none => matchesFrom read 0 s
    | some (b, rest) => b :: matchesFrom read (s.length - rest.length) s

def allMatches (read : List α → Option (β × List α)) (s : List α) : List β := matchesFrom read 0 s

variable {read : List α → Option (β × List α)}

theorem matchesFrom_length (s rest : List α) :
    matchesFrom read s.length (s ++ rest) = allMatches read rest := by
  induction s with
  | nil => rfl
  | cons c s ih => exact ih

/-- Behind a match the search goes on. -/
theorem allMatches_here {c : α} {s rest : List α} {b : β}
    (h : read (c :: (s ++ rest)) = some (b, rest)) :
    allMatches read (c :: (s ++ rest)) = b :: allMatches read rest := by
  have hskip : (s ++ rest).length - rest.length = s.length := by simp
  rw [allMatches, matchesFrom, h]
  simp only [hskip, matchesFrom_length]

/-- The search passes over a text where nothing matches. -/
theorem allMatches_skip {s rest : List α}
    (h : ∀ c t, c :: t <:+ s → read (c :: (t ++ rest)) = none) :
    allMatches read (s ++ rest) = allMatches read rest := by
  induction s with
  | nil => rfl
  | cons c s ih =>
    have hhere := h c s (List.suffix_refl _)
    rw [List.cons_append, allMatches, matchesFrom, hhere]
    exact ih fun d t ht => h d t (ht.trans (List.suffix_cons c s))

theorem allMatches_eq_nil {s : List α} (h : ∀ c t, c :: t <:+ s → read (c :: t) = none) :
    allMatches read s = [] := by
  have hskip := @allMatches_skip _ _ read s [] (by simpa using h)
  rwa [List.append_nil] at hskip

/-- The matches of a text made of blocks are those of its blocks. -/
theorem allMatches_flatMap {ω : Type} {text : ω → List α} {found : ω → List β} {items : List ω}
    (h : ∀ i ∈ items, ∀ rest, allMatches read (text i ++ rest) = found i ++ allMatches read rest)
    (rest : List α) :
    allMatches read (items.flatMap text ++ rest) =
      items.flatMap found ++ allMatches read rest := by
  induction items with
  | nil => rfl
  | cons i items ih =>
    obtain ⟨hi, hitems⟩ := List.forall_mem_cons.mp h
    rw [List.flatMap_cons, List.flatMap_cons, List.append_assoc, List.append_assoc, hi, ih hitems]

end Matches
