import Mathlib.Tactic.Common

/-!
# Strings (`lib/cstd/string`)

A C string is the list of its bytes up to the terminating zero.
-/

namespace Yaeos

/-- A string in memory; the zero at its end is not among its bytes. -/
structure CString where
  bytes : List Nat
  nonzero : ∀ byte ∈ bytes, byte ≠ 0
  deriving DecidableEq, Repr

theorem CString.eq_of_bytes {first second : CString} (same : first.bytes = second.bytes) :
    first = second := by
  obtain ⟨_, _⟩ := first
  obtain ⟨_, _⟩ := second
  subst same
  rfl

/-- `kstrlen` of what lies before the terminating zero. -/
def kstrlen (bytes : List Nat) : Nat := bytes.length

/-- `kstrchr`: the string from the first byte that is `c`. -/
def kstrchr : List Nat → Nat → Option (List Nat)
  | [], _ => none
  | byte :: bytes, c => if byte = c then some (byte :: bytes) else kstrchr bytes c

/-- The loop of `kstrcmp`: the difference of the first bytes that are not equal. -/
def kstrcmpBytes : List Nat → List Nat → Int
  | [], [] => 0
  | [], byte :: _ => 0 - byte
  | byte :: _, [] => byte - 0
  | left :: lhs, right :: rhs => if left = right then kstrcmpBytes lhs rhs else left - right

def kstrcmp (lhs rhs : CString) : Int := kstrcmpBytes lhs.bytes rhs.bytes

theorem length_le_of_kstrchr {bytes found : List Nat} {c : Nat}
    (result : kstrchr bytes c = some found) : found.length ≤ bytes.length := by
  induction bytes with
  | nil => cases result
  | cons byte bytes inductionHypothesis =>
      rw [kstrchr] at result
      split at result
      · cases result
        exact Nat.le_refl _
      · exact Nat.le_succ_of_le (inductionHypothesis result)

theorem kstrcmpBytes_eq_zero {lhs rhs : List Nat} (left : ∀ byte ∈ lhs, byte ≠ 0)
    (right : ∀ byte ∈ rhs, byte ≠ 0) : kstrcmpBytes lhs rhs = 0 ↔ lhs = rhs := by
  induction lhs generalizing rhs with
  | nil =>
      cases rhs with
      | nil => simp [kstrcmpBytes]
      | cons byte rhs =>
          have nonzero := right byte List.mem_cons_self
          simp [kstrcmpBytes, nonzero]
  | cons head lhs inductionHypothesis =>
      cases rhs with
      | nil =>
          have nonzero := left head List.mem_cons_self
          simp [kstrcmpBytes, nonzero]
      | cons byte rhs =>
          have tails := inductionHypothesis (fun _ member => left _ (List.mem_cons_of_mem _ member))
            fun _ member => right _ (List.mem_cons_of_mem _ member)
          by_cases same : head = byte
          · subst same
            simp [kstrcmpBytes, tails]
          · simp only [kstrcmpBytes, same, if_false, List.cons.injEq, false_and, iff_false]
            omega

/-- `kstrcmp` tells whether two strings are equal. -/
theorem kstrcmp_eq_zero {lhs rhs : CString} : kstrcmp lhs rhs = 0 ↔ lhs = rhs := by
  rw [kstrcmp, kstrcmpBytes_eq_zero lhs.nonzero rhs.nonzero]
  exact ⟨CString.eq_of_bytes, congrArg _⟩

end Yaeos
