import Yaeos.Cstd.Chunks
import Yaeos.Cstd.Count
import Yaeos.Video.Run

/-!
# What is read of a string

Each search for a line break goes on until there is one, or a `NUL`.  A chunk whose length is
all that is known of it is left behind unless its last character ends the search.
-/

namespace Yaeos

namespace Memory

variable {str : List Nat} {c : Nat}

/-- A search ends inside the string if there is something to end it. -/
theorem kstrchr_ok_iff : (∃ result, kstrchr str c = .ok result) ↔ 0 ∈ str ∨ c ∈ str := by
  induction str with
  | nil => simp [kstrchr]
  | cons byte str inductionHypothesis =>
      by_cases zero : byte = 0
      · subst zero
        simp [kstrchr]
      · by_cases found : byte = c
        · subst found
          simp [kstrchr, zero]
        · have other : (∃ result, kstrchr (byte :: str) c = .ok result) ↔
              ∃ result, kstrchr str c = .ok result := by
            rw [kstrchr, if_neg zero, if_neg found]
            cases kstrchr str c <;> simp
          rw [other, inductionHypothesis]
          simp [Ne.symm zero, Ne.symm found]

end Memory

section Round

variable {str rest : List Nat} {size left w : Nat} {state after chars : VideoState}

/-- What is left of the string is behind what is left of the count. -/
theorem RoundEnds.rest_eq (ends : RoundEnds str size w chars rest left after) :
    ∃ k ≤ size, rest = str.drop k ∧ left = size - k := by
  cases ends with
  | done all => exact ⟨w, Nat.le_of_eq all, rfl, by omega⟩
  | lineBreak more next =>
      refine ⟨w + 1, more, ?_, by omega⟩
      rw [← List.drop_drop, next]
      rfl
  | full more next => exact ⟨w, Nat.le_of_lt more, next.symm, rfl⟩

/-- A round returns if its search ends inside the string. -/
theorem videoWriteRound_returns (inside : state.terminal.Inside) (readable : size ≤ str.length)
    (found : 0 ∈ str ∨ byteOf '\n' ∈ str) :
    ∃ rest left after, videoWriteRound str size state = .ok (rest, left, after) := by
  obtain ⟨nlPos, searched⟩ := Memory.kstrchr_ok_iff.mpr found
  have col : state.col ≤ videoWidth := inside.col
  obtain ⟨short, fits⟩ := chunkWidth_le col size nlPos
  have noBreak := noBreak_of_chunkWidth searched size state.col
  rw [videoWriteRound, searched, Outcome.ok_bind]
  dsimp only
  generalize chunkWidth size state.col nlPos = w at *
  obtain ⟨chars, wrote, -⟩ := writeChars_scan inside fits (Nat.le_trans short readable) noBreak
  rw [wrote, Outcome.ok_bind]
  dsimp only
  split
  · have behind : 0 < (str.drop w).length := by
      rw [List.length_drop]
      omega
    cases next : str.drop w with
    | nil =>
        rw [next] at behind
        exact absurd behind (Nat.lt_irrefl 0)
    | cons byte text => exact ⟨_, _, _, rfl⟩
  · exact ⟨_, _, _, rfl⟩

/-- Nothing behind the string is read if every search ends inside it. -/
theorem videoWrite_readable (Safe : List Nat → Nat → Prop)
    (ends : ∀ str size, Safe str size → 0 < size →
      size ≤ str.length ∧ (0 ∈ str ∨ byteOf '\n' ∈ str))
    (keeps : ∀ str size k, Safe str size → k ≤ size → Safe (str.drop k) (size - k))
    (inside : state.terminal.Inside) (safe : Safe str size) (rounds : Nat) :
    videoWrite rounds str size state ≠ .error .outOfBounds := by
  induction rounds generalizing str size state with
  | zero => exact nofun
  | succ rounds inductionHypothesis =>
      by_cases positive : 0 < size
      · obtain ⟨readable, found⟩ := ends str size safe positive
        obtain ⟨rest, left, after, returned⟩ := videoWriteRound_returns inside readable found
        have scans := videoWriteRound_scans inside positive returned
        obtain ⟨w, chars, -, -, -, -, -, -, finished⟩ := videoWriteRound_ok inside returned
        obtain ⟨k, short, rfl, rfl⟩ := finished.rest_eq
        rw [videoWrite_succ positive, returned]
        exact inductionHypothesis scans.inside (keeps str size k safe short)
      · have ended : videoWrite (rounds + 1) str size state = .ok state := if_neg positive
        rw [ended]
        exact nofun

/-- Nothing is read behind a `NUL` that is not among the characters to be written. -/
theorem videoWrite_terminated (inside : state.terminal.Inside) (behind : 0 ∈ str.drop size)
    (rounds : Nat) : videoWrite rounds str size state ≠ .error .outOfBounds := by
  refine videoWrite_readable (fun str size => 0 ∈ str.drop size) ?_ ?_ inside behind rounds
  · intro str size behind _
    refine ⟨?_, .inl (List.mem_of_mem_drop behind)⟩
    by_contra short
    rw [List.drop_of_length_le (Nat.le_of_not_le short)] at behind
    cases behind
  · intro str size k behind short
    rw [List.drop_drop, Nat.add_sub_cancel' short]
    exact behind

/-- A string is read as far as its `NUL` when no more characters than it has are written. -/
theorem videoWrite_stored (s : CString) (inside : state.terminal.Inside)
    (short : size ≤ s.bytes.length) (rounds : Nat) :
    videoWrite rounds s.stored size state ≠ .error .outOfBounds := by
  refine videoWrite_terminated inside ?_ rounds
  rw [CString.stored, List.drop_append_of_le_length short]
  exact List.mem_append_right _ (List.mem_singleton_self 0)

/-- The last character of the chunk ends a search. -/
def EndsSearch (chunk : List Nat) : Prop :=
  ∀ c ∈ chunk.getLast?, c = 0 ∨ c = byteOf '\n'

theorem EndsSearch.readable {chunk : List Nat} (ends : EndsSearch chunk)
    (inside : state.terminal.Inside) (rounds : Nat) :
    videoWrite rounds chunk chunk.length state ≠ .error .outOfBounds := by
  refine videoWrite_readable (fun str size => size = str.length ∧ EndsSearch str) ?_ ?_ inside
    ⟨rfl, ends⟩ rounds
  · rintro str size ⟨rfl, ends⟩ positive
    obtain ⟨c, last⟩ : ∃ c, str.getLast? = some c :=
      Option.isSome_iff_exists.mp (by simpa using List.length_pos_iff.mp positive)
    have member := List.mem_of_getLast? last
    refine ⟨Nat.le_refl _, ?_⟩
    rcases ends c last with rfl | rfl
    · exact .inl member
    · exact .inr member
  · rintro str size k ⟨rfl, ends⟩ short
    refine ⟨List.length_drop.symm, fun c last => ?_⟩
    rw [List.getLast?_drop] at last
    split at last
    · cases last
    · exact ends c last

theorem Scan.NoBreak.not_mem {text : List Nat} (noBreak : Scan.NoBreak false text)
    (nulFree : ∀ c ∈ text, c ≠ 0) : byteOf '\n' ∉ text := by
  induction text with
  | nil => exact nofun
  | cons c text inductionHypothesis =>
      obtain ⟨first, others⟩ := List.forall_mem_cons.mp nulFree
      rw [Scan.NoBreak, decide_eq_false first] at noBreak
      rw [List.mem_cons, not_or]
      exact ⟨fun isBreak => Bool.false_ne_true (noBreak.1 isBreak.symm),
        inductionHypothesis noBreak.2 others⟩

/-- A round does not use up a chunk without a `NUL` whose last character is no line break. -/
theorem RoundEnds.rest_ne_nil {c : Nat} (ends : RoundEnds str str.length w chars rest left after)
    (noBreak : Scan.NoBreak false (str.take w)) (nulFree : ∀ c ∈ str, c ≠ 0)
    (last : str.getLast? = some c) (other : c ≠ byteOf '\n') (found : byteOf '\n' ∈ str) :
    rest ≠ [] := by
  cases ends with
  | done all =>
      rw [all, List.take_length] at noBreak
      exact absurd found (noBreak.not_mem nulFree)
  | lineBreak more next =>
      rintro rfl
      have behind : (str.drop w).getLast? = _ := List.getLast?_drop
      rw [next, if_neg (Nat.not_le.mpr more), last] at behind
      exact other (Option.some.inj behind).symm
  | full => exact List.cons_ne_nil _ _

/-- Such a chunk is left behind: no line break ends the last search. -/
theorem videoWrite_leaves {c : Nat} (inside : state.terminal.Inside) (nulFree : ∀ c ∈ str, c ≠ 0)
    (last : str.getLast? = some c) (other : c ≠ byteOf '\n') :
    ∃ rounds, videoWrite rounds str str.length state = .error .outOfBounds := by
  induction measure : roundsLeft str.length state using Nat.strong_induction_on
    generalizing str state with
  | h measure inductionHypothesis =>
  have positive : 0 < str.length := List.length_pos_of_mem (List.mem_of_getLast? last)
  by_cases found : byteOf '\n' ∈ str
  · obtain ⟨rest, left, after, returned⟩ :=
      videoWriteRound_returns inside (Nat.le_refl _) (.inr found)
    have scans := videoWriteRound_scans inside positive returned
    obtain ⟨w, chars, -, -, -, noBreak, -, -, finished⟩ := videoWriteRound_ok inside returned
    have more := finished.rest_ne_nil noBreak nulFree last other found
    obtain ⟨k, short, rfl, rfl⟩ := finished.rest_eq
    have count : str.length - k = (str.drop k).length := List.length_drop.symm
    have behind : k < str.length := by
      by_contra past
      exact more (List.drop_of_length_le (Nat.le_of_not_lt past))
    have restLast : (str.drop k).getLast? = some c := by
      rw [List.getLast?_drop, if_neg (Nat.not_le.mpr behind), last]
    rw [count] at scans returned
    obtain ⟨rounds, faults⟩ := inductionHypothesis _ (measure ▸ scans.progress) scans.inside
      (fun c member => nulFree c (List.mem_of_mem_drop member)) restLast rfl
    refine ⟨rounds + 1, ?_⟩
    rw [videoWrite_succ positive, returned]
    exact faults
  · rcases (Memory.kstrchr_onlyReads str (byteOf '\n')).cases with faults | returned
    · refine ⟨1, ?_⟩
      rw [videoWrite_succ positive, videoWriteRound, faults]
      rfl
    · rcases Memory.kstrchr_ok_iff.mp returned with zero | isBreak
      · exact absurd rfl (nulFree 0 zero)
      · exact absurd isBreak found

/-- With the bytes of a chunk to read, no more are read if and only if the last of them ends
the search. -/
theorem chunk_reads_iff {chunk : List Nat} (inside : state.terminal.Inside)
    (plain : PlainChunk chunk) :
    (∀ rounds, videoWrite rounds chunk chunk.length state ≠ .error .outOfBounds) ↔
      EndsSearch chunk := by
  constructor
  · intro reads c last
    by_contra leaves
    obtain ⟨nonzero, other⟩ := not_or.mp leaves
    have nulFree : ∀ c ∈ chunk, c ≠ 0 := by
      rcases plain with nulFree | single
      · exact nulFree
      · match chunk, single, last with
        | [byte], _, rfl => simpa using nonzero
    obtain ⟨rounds, faults⟩ := videoWrite_leaves inside nulFree last other
    exact reads rounds faults
  · exact fun ends => ends.readable inside

/-- Of a chunk that the formatter passes on, `video_write` reads nothing behind its length if
and only if the last character ends the search. -/
theorem formatterChunk_reads_iff {f : FprintfFn} {format : CString} {args : List VaArg} {rc : Int}
    {calls : List (OutputCall Nat)} {call : OutputCall Nat}
    (returned : kvfprintf f format.bytes args = .ok (rc, calls)) (passed : call ∈ calls)
    (row : state.row < videoHeight) (col : state.col ≤ videoWidth) :
    (∀ rounds, videoWrite rounds call.chunk call.chunk.length state ≠ .error .outOfBounds) ↔
      EndsSearch call.chunk :=
  chunk_reads_iff ⟨row, col⟩ (kvfprintf_plain returned call passed)

/-- The chunk of `"ok\n"`. -/
theorem line_reads_iff :
    (∀ rounds, videoWrite rounds [111, 107, 10] 3 (videoLoaded fun _ => 0) ≠
      .error .outOfBounds) ↔ EndsSearch [111, 107, 10] := by
  have returned : kvfprintf acceptAll (CString.mk [111, 107, 10] (by decide)).bytes [] =
      .ok (3, [⟨[111, 107, 10], 3⟩]) := by decide +kernel
  exact formatterChunk_reads_iff returned (List.mem_singleton_self _) (by decide) (by decide)

/-- The digit of `"%d"` with 5, behind which the search goes on. -/
theorem digit_read_behind :
    kvfprintf acceptAll [37, 100] [.word 5] = .ok (1, [⟨[53], 1⟩]) ∧
      ¬∀ rounds, videoWrite rounds [53] 1 (videoLoaded fun _ => 0) ≠ .error .outOfBounds := by
  refine ⟨by decide +kernel, fun reads => reads 1 rfl⟩

/-- The console gets a message as it is. -/
theorem consoleWrite_video (msg : List Nat) (len rounds : Nat) (state : VideoState) :
    consoleWrite msg len [⟨some (videoWrite rounds), state⟩] =
      (do .ok [⟨some (videoWrite rounds), ← videoWrite rounds msg len state⟩]) := by
  simp only [consoleWrite, List.mapM_cons, List.mapM_nil]
  cases videoWrite rounds msg len state <;> rfl

end Round

end Yaeos
