import Mathlib.Data.List.DropRight
import Mathlib.Data.List.TakeWhile
import Rollforward.Proofs.Collection.Occurrence
import Rollforward.Text.Basic

/-!
# `Rollforward.Proofs.Text.Run`: runs of characters at the ends of a text

A run of characters of a class ends in front of the first character of another (`EndsRun`). There it
can be told from what follows. Trimming takes off the runs of blanks, so a text that is trimmed
already (`trim_trim`) is left as it is, and so is a text without blanks (`trim_eq_self`).
-/

set_option autoImplicit false

namespace Rollforward.Text

/-! ### Runs of characters -/

/-- A run of characters of the class ends in front of `rest`. -/
def EndsRun (p : Char → Bool) (rest : List Char) : Prop := ∀ c ∈ rest.head?, p c = false

section
variable {p : Char → Bool} {run rest : List Char}

/-- Every run ends where the text does. -/
theorem endsRun_nil : EndsRun p [] := nofun

/-- Whether a run ends can be seen from the first character behind it. -/
theorem endsRun_cons {c : Char} : EndsRun p (c :: rest) ↔ p c = false := by
  simp [EndsRun]

/-- A run that is dropped as far as it goes has ended. -/
theorem endsRun_dropWhile (p : Char → Bool) (cs : List Char) : EndsRun p (cs.dropWhile p) := by
  intro c first
  have stops := List.head?_dropWhile_not p cs
  rwa [first] at stops

/-- A run is taken off as a whole, and nothing of what follows with it. -/
theorem EndsRun.takeWhile_append (ends : EndsRun p rest) (all : ∀ c ∈ run, p c = true) :
    (run ++ rest).takeWhile p = run :=
  Collection.takeWhile_append_of_stops all ends

/-- What is left behind a run is what followed it. -/
theorem EndsRun.dropWhile_append (ends : EndsRun p rest) (all : ∀ c ∈ run, p c = true) :
    (run ++ rest).dropWhile p = rest := by
  rw [List.dropWhile_append_of_pos all]
  cases rest with
  | nil => rfl
  | cons c cs => rw [List.dropWhile_cons, endsRun_cons.1 ends, if_neg nofun]

/-- A run of a larger class ends one of a smaller class too. -/
theorem EndsRun.mono {q : Char → Bool} (ends : EndsRun p rest) (h : ∀ c, q c = true → p c = true) :
    EndsRun q rest := by
  intro c first
  rw [← Bool.not_eq_true]
  intro hq
  cases (ends c first).symm.trans (h c hq)

end

/-! ### Trimming -/

/-- What is trimmed has no blanks around it. -/
theorem trimBlanks_trimBlanks (cs : List Char) : trimBlanks (trimBlanks cs) = trimBlanks cs := by
  let front := cs.dropWhile isBlank
  have front_eq : (trimBlanks cs).dropWhile isBlank = trimBlanks cs := by
    have start : trimBlanks cs <+: front := List.rdropWhile_prefix isBlank front
    refine List.dropWhile_eq_self_iff.2 fun bound => ?_
    -- The first character was the first that is not dropped at the front.
    have bound' : 0 < front.length := Nat.lt_of_lt_of_le bound start.length_le
    rw [start.getElem bound]
    exact List.dropWhile_get_zero_not isBlank cs bound'
  show (List.dropWhile isBlank (((trimBlanks cs).dropWhile isBlank).reverse)).reverse = _
  rw [front_eq]
  exact List.rdropWhile_idempotent isBlank front

/-- Trimming twice is trimming once. -/
theorem trim_trim (s : String) : trim (trim s) = trim s := by
  rw [trim, trim, String.toList_ofList, trimBlanks_trimBlanks]

/-- A text without blanks has none around it. -/
theorem trim_eq_self {s : String} (visible : ∀ c ∈ s.toList, isBlank c = false) : trim s = s := by
  have kept {cs : List Char} (visible : ∀ c ∈ cs, isBlank c = false) :
      cs.dropWhile isBlank = cs := by
    refine List.dropWhile_eq_self_iff.2 fun bound => ?_
    rw [visible _ (List.getElem_mem bound)]
    nofun
  rw [trim, trimBlanks, kept visible, kept fun c hc => visible c (List.mem_reverse.1 hc),
    List.reverse_reverse, String.ofList_toList]

end Rollforward.Text
