import Yaeos.Cstd.String
import Yaeos.Machine.Slots

/-!
# Strings in memory (`lib/cstd/string`)

A pointer is the list of the bytes that may be read from it on; what goes past them is a
fault.  `kstrncmp` leaves its loop when `n` characters are equal, and then compares the two
characters behind them.
-/

namespace Yaeos

namespace CString

/-- The bytes of a string with the terminating zero. -/
def stored (s : CString) : List Nat := s.bytes ++ [0]

/-- The first `n` characters. -/
def cut (s : CString) (n : Nat) : CString where
  bytes := s.bytes.take n
  nonzero _ member := s.nonzero _ (List.mem_of_mem_take member)

end CString

namespace Memory

/-- The computation returns, or it goes past the bytes that may be read. -/
inductive OnlyReads {Value : Type} : Outcome Value → Prop
  | ok (value : Value) : OnlyReads (.ok value)
  | fault : OnlyReads (.error .outOfBounds)

theorem OnlyReads.bind {First Second : Type} {first : Outcome First}
    {rest : First → Outcome Second} (one : OnlyReads first) (two : ∀ value, OnlyReads (rest value)) :
    OnlyReads (first >>= rest) := by
  cases one with
  | ok value => exact two value
  | fault => exact .fault

theorem OnlyReads.cases {Value : Type} {outcome : Outcome Value} (reads : OnlyReads outcome) :
    outcome = .error .outOfBounds ∨ ∃ value, outcome = .ok value := by
  cases reads with
  | ok value => exact .inr ⟨value, rfl⟩
  | fault => exact .inl rfl

theorem readSlot_onlyReads (memory : List Nat) (index : Nat) :
    OnlyReads (readSlot memory index) := by
  unfold readSlot
  split
  · exact .ok _
  · exact .fault

/-- `kstrchr`: how far from the pointer the first `c` is. -/
def kstrchr : (s : List Nat) → (c : Nat) → Outcome (Option Nat)
  | [], _ => .error .outOfBounds
  | byte :: s, c =>
      if byte = 0 then .ok none
      else if byte = c then .ok (some 0)
      else Option.map (· + 1) <$> kstrchr s c

/-- `return (*lhs - *rhs);` -/
def difference (lhs rhs : List Nat) : Outcome Int := do
  let left ← readSlot lhs 0
  let right ← readSlot rhs 0
  .ok (left - right)

def kstrncmp : (lhs rhs : List Nat) → (n : Nat) → Outcome Int
  | lhs, rhs, 0 => difference lhs rhs
  | lhs, rhs, n + 1 => do
      let left ← readSlot lhs 0
      if left ≠ 0 then
        let right ← readSlot rhs 0
        if left = right then kstrncmp lhs.tail rhs.tail n else difference lhs rhs
      else difference lhs rhs

/-- Where only the first `n` bytes may be read, the call returns, and its sign is that of
the comparison of the first `n` characters. -/
def ComparesFirst (s1 s2 : CString) (n : Nat) : Prop :=
  ∃ result, kstrncmp (s1.stored.take n) (s2.stored.take n) n = .ok result ∧
    result.sign = (kstrcmp (s1.cut n) (s2.cut n)).sign

/-- The first `n` characters decide: they differ, or a string ends before. -/
def Decided (lhs rhs : List Nat) (n : Nat) : Prop :=
  lhs.take n ≠ rhs.take n ∨ lhs.length < n

variable {lhs rhs : List Nat} {n left right : Nat}

theorem readSlot_cons {Slot : Type} (slot : Slot) (slots : List Slot) :
    readSlot (slot :: slots) 0 = .ok slot := rfl

theorem difference_cons (left right : Nat) (lhs rhs : List Nat) :
    difference (left :: lhs) (right :: rhs) = .ok (left - right) := rfl

/-- Bytes that are different end the loop. -/
theorem kstrncmp_differ (differ : left ≠ right) (lhs rhs : List Nat) (n : Nat) :
    kstrncmp (left :: lhs) (right :: rhs) (n + 1) = .ok (left - right) := by
  simp only [kstrncmp, readSlot_cons, Outcome.ok_bind, difference_cons, if_neg differ]
  split <;> rfl

theorem kstrncmp_same (nonzero : left ≠ 0) (lhs rhs : List Nat) (n : Nat) :
    kstrncmp (left :: lhs) (left :: rhs) (n + 1) = kstrncmp lhs rhs n := by
  simp only [kstrncmp, readSlot_cons, Outcome.ok_bind, if_pos nonzero, if_true, List.tail_cons]

/-- With the first `n` bytes to read, `kstrncmp` is the comparison of the first `n`
characters if they decide, and else goes past them. -/
theorem kstrncmp_take (leftNonzero : ∀ byte ∈ lhs, byte ≠ 0) (rightNonzero : ∀ byte ∈ rhs, byte ≠ 0)
    (n : Nat) :
    (Decided lhs rhs n ∧ kstrncmp ((lhs ++ [0]).take n) ((rhs ++ [0]).take n) n =
        .ok (kstrcmpBytes (lhs.take n) (rhs.take n))) ∨
      ¬Decided lhs rhs n ∧ kstrncmp ((lhs ++ [0]).take n) ((rhs ++ [0]).take n) n =
        .error .outOfBounds := by
  induction n generalizing lhs rhs with
  | zero => exact .inr ⟨by simp [Decided], rfl⟩
  | succ n inductionHypothesis =>
      cases lhs with
      | nil =>
          refine .inl ⟨.inr (Nat.succ_pos n), ?_⟩
          cases rhs with
          | nil => rfl
          | cons right rhs =>
              have differ : 0 ≠ right := (rightNonzero right List.mem_cons_self).symm
              simp only [List.nil_append, List.cons_append, List.take_succ_cons,
                kstrncmp_differ differ]
              rfl
      | cons left lhs =>
          have nonzero : left ≠ 0 := leftNonzero left List.mem_cons_self
          cases rhs with
          | nil =>
              refine .inl ⟨.inl (by simp), ?_⟩
              simp only [List.nil_append, List.cons_append, List.take_succ_cons,
                kstrncmp_differ nonzero]
              rfl
          | cons right rhs =>
              by_cases same : left = right
              · subst same
                have tails := inductionHypothesis
                  (fun _ member => leftNonzero _ (List.mem_cons_of_mem _ member))
                  (fun _ member => rightNonzero _ (List.mem_cons_of_mem _ member))
                simpa [Decided, kstrncmp_same nonzero, kstrcmpBytes] using tails
              · refine .inl ⟨.inl (by simp [same]), ?_⟩
                simp only [List.cons_append, List.take_succ_cons, kstrncmp_differ same,
                  kstrcmpBytes, if_neg same]

/-- `kstrncmp` compares the first `n` characters if and only if they decide. -/
theorem comparesFirst_iff (s1 s2 : CString) (n : Nat) :
    ComparesFirst s1 s2 n ↔ s1.bytes.take n ≠ s2.bytes.take n ∨ s1.bytes.length < n := by
  unfold ComparesFirst
  rcases kstrncmp_take s1.nonzero s2.nonzero n with ⟨decided, returned⟩ | ⟨undecided, faults⟩
  · exact iff_of_true ⟨_, returned, rfl⟩ decided
  · refine iff_of_false ?_ undecided
    rintro ⟨result, returned, -⟩
    cases faults.symm.trans returned

/-- Where all bytes may be read, one character more is compared. -/
theorem kstrncmp_all (leftNonzero : ∀ byte ∈ lhs, byte ≠ 0) (rightNonzero : ∀ byte ∈ rhs, byte ≠ 0)
    (n : Nat) : kstrncmp (lhs ++ [0]) (rhs ++ [0]) n =
      .ok (kstrcmpBytes (lhs.take (n + 1)) (rhs.take (n + 1))) := by
  induction n generalizing lhs rhs with
  | zero =>
      cases lhs <;> cases rhs <;>
        simp [kstrcmpBytes, kstrncmp, difference_cons]
      omega
  | succ n inductionHypothesis =>
      cases lhs with
      | nil =>
          cases rhs with
          | nil => rfl
          | cons right rhs =>
              exact kstrncmp_differ (rightNonzero right List.mem_cons_self).symm ..
      | cons left lhs =>
          have nonzero : left ≠ 0 := leftNonzero left List.mem_cons_self
          cases rhs with
          | nil => exact kstrncmp_differ nonzero ..
          | cons right rhs =>
              by_cases same : left = right
              · subst same
                have tails := inductionHypothesis
                  (fun _ member => leftNonzero _ (List.mem_cons_of_mem _ member))
                  (fun _ member => rightNonzero _ (List.mem_cons_of_mem _ member))
                simpa [kstrncmp_same nonzero, kstrcmpBytes] using tails
              · simp only [List.cons_append, List.take_succ_cons, kstrncmp_differ same,
                  kstrcmpBytes, if_neg same]

theorem kstrncmp_stored (s1 s2 : CString) (n : Nat) :
    kstrncmp s1.stored s2.stored n = .ok (kstrcmp (s1.cut (n + 1)) (s2.cut (n + 1))) :=
  kstrncmp_all s1.nonzero s2.nonzero n

section Search

variable {byte c pos : Nat} {str : List Nat} {result : Option Nat}

/-- The three ways in which a search can go at a byte. -/
theorem kstrchr_cons (searched : kstrchr (byte :: str) c = .ok result) :
    byte = 0 ∧ result = none ∨ byte ≠ 0 ∧ byte = c ∧ result = some 0 ∨
      byte ≠ 0 ∧ byte ≠ c ∧ ∃ later, kstrchr str c = .ok later ∧ result = later.map (· + 1) := by
  rw [kstrchr] at searched
  split at searched
  · next zero => exact .inl ⟨zero, (Except.ok.inj searched).symm⟩
  · next nonzero =>
      split at searched
      · next found => exact .inr (.inl ⟨nonzero, found, (Except.ok.inj searched).symm⟩)
      · next other =>
          obtain ⟨later, returned, mapped⟩ := Outcome.map_eq_ok searched
          exact .inr (.inr ⟨nonzero, other, later, returned, mapped.symm⟩)

/-- Where `c` is found, there is neither a `c` nor a `NUL` before. -/
theorem kstrchr_some (searched : kstrchr str c = .ok (some pos)) :
    ∃ line rest, str = line ++ c :: rest ∧ line.length = pos ∧
      ∀ byte ∈ line, byte ≠ 0 ∧ byte ≠ c := by
  induction str generalizing pos with
  | nil => cases searched
  | cons byte str inductionHypothesis =>
      rcases kstrchr_cons searched with
        ⟨-, nothing⟩ | ⟨-, rfl, here⟩ | ⟨nonzero, other, later, returned, mapped⟩
      · cases nothing
      · cases here
        exact ⟨[], str, rfl, rfl, nofun⟩
      · obtain ⟨earlier, rfl, rfl⟩ := Option.map_eq_some_iff.mp mapped.symm
        obtain ⟨line, rest, rfl, rfl, clean⟩ := inductionHypothesis returned
        exact ⟨byte :: line, rest, rfl, rfl, List.forall_mem_cons.mpr ⟨⟨nonzero, other⟩, clean⟩⟩

/-- What reads memory faults only where it goes past the bytes that may be read. -/
theorem kstrchr_onlyReads (str : List Nat) (c : Nat) : OnlyReads (kstrchr str c) := by
  induction str with
  | nil => exact .fault
  | cons byte str inductionHypothesis =>
      rw [kstrchr]
      split
      · exact .ok _
      · split
        · exact .ok _
        · exact inductionHypothesis.bind fun _ => .ok _

end Search

/-- `"ab"` and `"ac"`, of which one character is to be compared. -/
theorem firstCharacter_not_compared :
    kstrncmp [97, 98, 0] [97, 99, 0] 1 = .ok (-1) ∧
      ¬ComparesFirst ⟨[97, 98], by decide⟩ ⟨[97, 99], by decide⟩ 1 := by
  refine ⟨rfl, ?_⟩
  rintro ⟨result, returned, -⟩
  cases returned

end Memory

end Yaeos
