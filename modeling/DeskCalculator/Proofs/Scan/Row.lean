import DeskCalculator.Piece

/-!
# Pieces stand in a row

The pieces of a source are not empty, each one starts where the piece before it has stopped or
later, and the last one stops within the source. So their starts increase, and a byte of the source
divides them into those that start before it and the others.

## Main definitions

* `scan`: the pieces of a text as a list.
* `InRow`: pieces one behind the other between two bytes.
* `startOf`: the byte at which a row begins.

## Main results

* `inRow_pieces`: the pieces of a source stand in a row.
* `InRow.filter_start_lt_startOf`: the pieces before the start of others.
-/

namespace DeskCalculator

/-- The pieces of a text whose first character is at the byte `start`. -/
def scan (start : Nat) (text : List Char) : List Piece := (scanFrom start text #[]).toList

theorem toList_pieces (source : String) : (pieces source).toList = scan 0 source.toList := rfl

theorem scan_nil (start : Nat) : scan start [] = [] := by
  rw [scan, scanFrom]

theorem scan_space (start : Nat) (rest : List Char) :
    scan start (' ' :: rest) = scan (start + 1) rest := by
  rw [scan, scanFrom, if_pos rfl, scan]

/-- Spaces in front of a text are skipped. -/
theorem scan_replicate_append (start k : Nat) (text : List Char) :
    scan start (List.replicate k ' ' ++ text) = scan (start + k) text := by
  induction k generalizing start with
  | zero => rfl
  | succ k ih =>
    rw [List.replicate_succ, List.cons_append, scan_space, ih, Nat.add_assoc, Nat.add_comm 1 k]

theorem scan_replicate (start k : Nat) : scan start (List.replicate k ' ') = [] := by
  rw [← List.append_nil (List.replicate k ' '), scan_replicate_append, scan_nil]

theorem scan_piece (start : Nat) {c : Char} (rest : List Char) (hc : c ≠ ' ') :
    scan start (c :: rest) = (Piece.first start c rest).1 ::
      scan (Piece.first start c rest).1.stop (Piece.first start c rest).2 := by
  have happend := scanFrom_append (Piece.first start c rest).1.stop (Piece.first start c rest).2
    #[(Piece.first start c rest).1] #[]
  rw [Array.append_empty] at happend
  rw [scan, scanFrom, if_neg hc, Array.push_eq_append, Array.empty_append, happend,
    Array.toList_append, scan]
  rfl

/-- The byte at which the first of some pieces starts, or the end of the row if there are none. -/
def startOf (stop : Nat) (ps : List Piece) : Nat := (ps.head?.map Piece.start).getD stop

/-- Pieces that are not empty and stand one behind the other between two bytes. -/
def InRow : Nat → List Piece → Nat → Prop
  | start, [], stop => start ≤ stop
  | start, p :: ps, stop => start ≤ p.start ∧ p.start < p.stop ∧ InRow p.stop ps stop

theorem InRow.of_le {start start' stop : Nat} {ps : List Piece} (h : InRow start ps stop)
    (hle : start' ≤ start) : InRow start' ps stop := by
  cases ps with
  | nil => exact Nat.le_trans hle h
  | cons p ps => exact ⟨Nat.le_trans hle h.1, h.2⟩

theorem utf8ByteSize_ofList_append (cs ds : List Char) :
    (String.ofList (cs ++ ds)).utf8ByteSize =
      (String.ofList cs).utf8ByteSize + (String.ofList ds).utf8ByteSize := by
  rw [String.ofList_append, String.utf8ByteSize_append]

theorem utf8ByteSize_ofList_space (cs : List Char) :
    (String.ofList (' ' :: cs)).utf8ByteSize = 1 + (String.ofList cs).utf8ByteSize :=
  utf8ByteSize_ofList_append [' '] cs

theorem utf8ByteSize_ofList_replicate (k : Nat) :
    (String.ofList (List.replicate k ' ')).utf8ByteSize = k := by
  induction k with
  | zero => rfl
  | succ k ih => rw [List.replicate_succ, utf8ByteSize_ofList_space, ih, Nat.add_comm]

theorem utf8ByteSize_ofList_cons (c : Char) (cs : List Char) :
    (String.ofList (c :: cs)).utf8ByteSize = c.utf8Size + (String.ofList cs).utf8ByteSize := by
  rw [← List.singleton_append, utf8ByteSize_ofList_append, ← String.singleton_eq_ofList,
    String.utf8ByteSize_singleton]

/-- The first piece and what is left behind it share the bytes of the text. -/
theorem Piece.stop_first_add (start : Nat) (c : Char) (rest : List Char) :
    (first start c rest).1.stop + (String.ofList (first start c rest).2).utf8ByteSize =
      start + (String.ofList (c :: rest)).utf8ByteSize := by
  rw [← append_of_first start c rest, utf8ByteSize_ofList_append, String.ofList_toList, stop,
    start_first, Nat.add_assoc]

/-- The first piece is not empty. -/
theorem Piece.start_lt_stop_first (start : Nat) (c : Char) (rest : List Char) :
    start < (first start c rest).1.stop := by
  have hne : (first start c rest).1.spelling.utf8ByteSize ≠ 0 := by
    rw [Ne, String.utf8ByteSize_eq_zero_iff]
    intro hempty
    exact spelling_first_ne_nil start c rest (by rw [hempty, String.toList_empty])
  rw [stop, start_first]
  omega

/-- The pieces of a text stand in a row between its first byte and the byte behind its last one. -/
theorem inRow_scan (start : Nat) (text : List Char) :
    InRow start (scan start text) (start + (String.ofList text).utf8ByteSize) := by
  induction start, text, (#[] : Array Piece) using scanFrom.induct with
  | case1 start =>
    rw [scan_nil]
    exact Nat.le_add_right start _
  | case2 start _ rest ih =>
    rw [scan_space, utf8ByteSize_ofList_space, ← Nat.add_assoc]
    exact ih.of_le (Nat.le_succ start)
  | case3 start _ c rest hc ih =>
    rw [scan_piece start rest hc, ← Piece.stop_first_add]
    refine ⟨Nat.le_of_eq (Piece.start_first start c rest).symm, ?_, ih⟩
    rw [Piece.start_first]
    exact Piece.start_lt_stop_first start c rest

/-- The pieces of a source stand in a row. -/
theorem inRow_pieces (source : String) :
    InRow 0 (pieces source).toList source.utf8ByteSize := by
  have hrow := inRow_scan 0 source.toList
  rwa [Nat.zero_add, String.ofList_toList] at hrow

namespace InRow

variable {start stop : Nat} {ps qs : List Piece}

theorem le (h : InRow start ps stop) : start ≤ stop := by
  induction ps generalizing start with
  | nil => exact h
  | cons p ps ih => exact Nat.le_trans h.1 (Nat.le_trans (Nat.le_of_lt h.2.1) (ih h.2.2))

/-- Every piece of a row starts within it. -/
theorem start_bounds (h : InRow start ps stop) : ∀ p ∈ ps, start ≤ p.start ∧ p.start < stop := by
  induction ps generalizing start with
  | nil => simp
  | cons p ps ih =>
    obtain ⟨hstart, hlt, hrow⟩ := h
    intro q hq
    rcases List.mem_cons.mp hq with rfl | hq
    · exact ⟨hstart, Nat.lt_of_lt_of_le hlt hrow.le⟩
    · have hbounds := ih hrow q hq
      exact ⟨by omega, hbounds.2⟩

/-- A row is made of two rows, the first of which ends where the second begins. -/
theorem append (h : InRow start (ps ++ qs) stop) :
    ∃ mid, InRow start ps mid ∧ InRow mid qs stop := by
  induction ps generalizing start with
  | nil => exact ⟨start, Nat.le_refl start, h⟩
  | cons p ps ih =>
    obtain ⟨hstart, hlt, hrow⟩ := h
    obtain ⟨mid, hps, hqs⟩ := ih hrow
    exact ⟨mid, ⟨hstart, hlt, hps⟩, hqs⟩

/-- Where a row begins, all its pieces start, or behind it. -/
theorem startOf_le (h : InRow start ps stop) : ∀ p ∈ ps, startOf stop ps ≤ p.start := by
  cases ps with
  | nil => simp
  | cons q qs =>
    obtain ⟨-, hlt, hqs⟩ := h
    intro p hp
    rcases List.mem_cons.mp hp with rfl | hp
    · exact Nat.le_refl _
    · exact Nat.le_of_lt (Nat.lt_of_lt_of_le hlt (hqs.start_bounds p hp).1)

theorem le_startOf (h : InRow start ps stop) : start ≤ startOf stop ps := by
  cases ps with
  | nil => exact h
  | cons p ps => exact h.1

/-- The pieces in front of others, and the first of those, start no later than where those begin. -/
theorem start_le_startOf (h : InRow start (ps ++ qs) stop) :
    ∀ p ∈ ps ++ qs.take 1, p.start ≤ startOf stop qs := by
  obtain ⟨mid, hps, hqs⟩ := h.append
  rw [List.forall_mem_append]
  refine ⟨fun p hp ↦ ?_, fun q hq ↦ ?_⟩
  · exact Nat.le_of_lt (Nat.lt_of_lt_of_le (hps.start_bounds p hp).2 hqs.le_startOf)
  · cases qs with
    | nil => cases hq
    | cons q' qs =>
      obtain rfl := List.mem_singleton.mp hq
      exact Nat.le_refl q.start

/-- The pieces in front of others are those that start before them. -/
theorem filter_start_lt_startOf (h : InRow start (ps ++ qs) stop) :
    (ps ++ qs).filter (·.start < startOf stop qs) = ps := by
  obtain ⟨mid, hps, hqs⟩ := h.append
  have hbefore : ∀ p ∈ ps, decide (p.start < startOf stop qs) = true := fun p hp ↦
    decide_eq_true (Nat.lt_of_lt_of_le (hps.start_bounds p hp).2 hqs.le_startOf)
  have hbehind : ∀ q ∈ qs, ¬ decide (q.start < startOf stop qs) = true := fun q hq ↦ by
    rw [decide_eq_true_iff, Nat.not_lt]
    exact hqs.startOf_le q hq
  rw [List.filter_append, List.filter_eq_self.mpr hbefore, List.filter_eq_nil_iff.mpr hbehind,
    List.append_nil]

/-- Where some pieces of a row begin, there starts the first of them. -/
theorem find?_start_eq_startOf (h : InRow start (ps ++ qs) stop) :
    (ps ++ qs).find? (·.start = startOf stop qs) = qs.head? := by
  obtain ⟨mid, hps, hqs⟩ := h.append
  have hbefore : ps.find? (·.start = startOf stop qs) = none := by
    rw [List.find?_eq_none]
    intro p hp
    have hlt := Nat.lt_of_lt_of_le (hps.start_bounds p hp).2 hqs.le_startOf
    rw [decide_eq_true_iff]
    omega
  rw [List.find?_append, hbefore, Option.none_or]
  cases qs with
  | nil => rfl
  | cons q qs => exact List.find?_cons_of_pos (decide_eq_true rfl)

end InRow

end DeskCalculator
