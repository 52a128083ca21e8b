import DeskCalculator.Text.Lines
import Mathlib.Data.List.DropRight

/-!
# Lines of characters and lines of bytes

The lines of a list are told here without a way to find them: a line feed ends a line, a carriage
return directly before it belongs to that end, and what is left behind the last line feed is a line
with all its characters, unless nothing is left. A text and its bytes in UTF-8 have the same lines,
since no byte of any other character is that of a line feed or of a carriage return. So a list of
bytes is in UTF-8 exactly if all its lines are.

## Main definitions

* `IsLines`: the lines of a list.
* `Separates`: a coding in which one element stands for itself alone.
* `utf8`: the bytes of a text in UTF-8.

## Main results

* `linesBetween_eq_iff`: the lines that are found.
* `IsLines.flatMap`: the lines of a coded list are the coded lines.
* `decode?_eq_some_iff`: a list of bytes is decoded as the text that it is the UTF-8 form of.
* `isLines_utf8`, `exists_utf8_of_isLines`: texts and their bytes have the same lines.
-/

namespace DeskCalculator

variable {α β : Type}

/-! ### Lines of a list -/

/-- The lines of a list, for a line feed and a carriage return. -/
inductive IsLines (lf cr : α) : List α → List (List α) → Prop
  /-- Nothing has no lines. -/
  | nil : IsLines lf cr [] []
  /-- What is left without a line feed is the last line. -/
  | last {line} (hne : line ≠ []) (h : lf ∉ line) : IsLines lf cr line [line]
  /-- A line ends with a line feed. -/
  | feed {line rest ls} (h : lf ∉ line) (hcr : line.getLast? ≠ some cr)
      (hrest : IsLines lf cr rest ls) : IsLines lf cr (line ++ lf :: rest) (line :: ls)
  /-- A line ends with a carriage return and a line feed. -/
  | returnFeed {line rest ls} (h : lf ∉ line) (hrest : IsLines lf cr rest ls) :
      IsLines lf cr (line ++ cr :: lf :: rest) (line :: ls)

section Search

variable [DecidableEq α] {lf cr : α} {text line rest : List α} {ls : List (List α)}

theorem takeWhile_ne_append (h : lf ∉ line) (rest : List α) :
    (line ++ lf :: rest).takeWhile (· ≠ lf) = line ∧
      (line ++ lf :: rest).dropWhile (· ≠ lf) = lf :: rest := by
  have hline : ∀ c ∈ line, decide (c ≠ lf) = true := fun c hc ↦
    decide_eq_true fun heq ↦ h (heq ▸ hc)
  rw [List.takeWhile_append_of_pos hline, List.dropWhile_append_of_pos hline]
  simp

/-- A line that ends with a line feed is found, without the carriage return at its end. -/
theorem linesBetween_append (h : lf ∉ line) (rest : List α) :
    linesBetween lf cr (line ++ lf :: rest) = dropReturn cr line :: linesBetween lf cr rest := by
  obtain ⟨htake, hdrop⟩ := takeWhile_ne_append h rest
  rw [linesBetween]
  split
  · next hnil => cases hdrop.symm.trans hnil
  · next heq =>
    obtain ⟨-, rfl⟩ := List.cons.inj (hdrop.symm.trans heq)
    rw [htake]

/-- What has no line feed is one line. -/
theorem linesBetween_of_not_mem (h : lf ∉ text) :
    linesBetween lf cr text = if text.isEmpty then [] else [text] := by
  have hdrop : text.dropWhile (· ≠ lf) = [] :=
    List.dropWhile_eq_nil_iff.mpr fun c hc ↦ decide_eq_true fun heq ↦ h (heq ▸ hc)
  rw [linesBetween]
  split
  · rfl
  · next heq => cases hdrop.symm.trans heq

/-- The lines of a list are found. -/
theorem IsLines.linesBetween_eq (hne : cr ≠ lf) (h : IsLines lf cr text ls) :
    linesBetween lf cr text = ls := by
  induction h with
  | nil => exact linesBetween_of_not_mem List.not_mem_nil
  | last hne h => rw [linesBetween_of_not_mem h, if_neg (by simpa using hne)]
  | feed h hcr _ ih => rw [linesBetween_append h, dropReturn, if_neg hcr, ih]
  | @returnFeed line rest ls h _ ih =>
    have hline : lf ∉ line ++ [cr] := by simpa [h] using hne.symm
    have hfound : linesBetween lf cr (line ++ [cr] ++ lf :: rest) =
        dropReturn cr (line ++ [cr]) :: linesBetween lf cr rest := linesBetween_append hline rest
    rw [List.append_assoc, List.singleton_append] at hfound
    rw [hfound, dropReturn, if_pos List.getLast?_concat, List.dropLast_concat, ih]

/-- What is found are the lines of a list. -/
theorem isLines_linesBetween (lf cr : α) (text : List α) :
    IsLines lf cr text (linesBetween lf cr text) := by
  induction h : text.length using Nat.strongRecOn generalizing text with
  | ind n ih =>
    by_cases hmem : lf ∈ text
    · obtain ⟨line, rest, rfl, hline⟩ := List.eq_append_cons_of_mem hmem
      have hrest := ih rest.length (by simp [← h]; omega) rest rfl
      rw [linesBetween_append hline, dropReturn]
      split
      · next hlast =>
        obtain ⟨front, rfl⟩ := List.getLast?_eq_some_iff.mp hlast
        rw [List.mem_append, not_or] at hline
        rw [List.dropLast_concat, List.append_assoc]
        exact .returnFeed hline.1 hrest
      · next hlast => exact .feed hline hlast hrest
    · rw [linesBetween_of_not_mem hmem]
      split
      · next hnil =>
        rw [List.isEmpty_iff.mp hnil]
        exact .nil
      · next hne => exact .last (by simpa using hne) hmem

/-- The lines that are found are the lines of the list. -/
theorem linesBetween_eq_iff (hne : cr ≠ lf) :
    linesBetween lf cr text = ls ↔ IsLines lf cr text ls :=
  ⟨fun h ↦ h ▸ isLines_linesBetween lf cr text, IsLines.linesBetween_eq hne⟩

end Search

/-! ### Lines of a coded list -/

/-- In a coding one element stands for itself alone, and occurs in the code of no other. -/
structure Separates (code : α → List β) (c : α) (b : β) : Prop where
  /-- The code of the element. -/
  code_eq : code c = [b]
  /-- No other element has it in its code. -/
  not_mem : ∀ d ≠ c, b ∉ code d

namespace Separates

variable {code : α → List β} {c : α} {b : β}

theorem mem_iff (h : Separates code c b) {d : α} : b ∈ code d ↔ d = c := by
  refine ⟨fun hmem ↦ ?_, fun heq ↦ ?_⟩
  · by_contra hne
    exact h.not_mem d hne hmem
  · rw [heq, h.code_eq]
    exact List.mem_singleton_self b

/-- The element occurs in the code of a list exactly if it occurs in the list. -/
theorem mem_flatMap_iff (h : Separates code c b) {text : List α} :
    b ∈ text.flatMap code ↔ c ∈ text := by
  simp [List.mem_flatMap, h.mem_iff]

/-- The element ends the code of a list exactly if it ends the list. -/
theorem getLast?_flatMap (h : Separates code c b) (hcode : ∀ d, code d ≠ []) {text : List α}
    (hlast : text.getLast? ≠ some c) : (text.flatMap code).getLast? ≠ some b := by
  obtain rfl | ⟨front, d, rfl⟩ := text.eq_nil_or_concat'
  · exact nofun
  · rw [List.getLast?_concat, Ne, Option.some_inj] at hlast
    rw [List.flatMap_append, List.flatMap_singleton, List.getLast?_append_of_ne_nil _ (hcode d)]
    exact fun hmem ↦ h.not_mem d hlast (List.mem_of_getLast? hmem)

end Separates

/-- The lines of a coded list are the coded lines. -/
theorem IsLines.flatMap {code : α → List β} {lf cr : α} {lf' cr' : β}
    (hlf : Separates code lf lf') (hcr : Separates code cr cr') (hcode : ∀ c, code c ≠ [])
    {text : List α} {ls : List (List α)} (h : IsLines lf cr text ls) :
    IsLines lf' cr' (text.flatMap code) (ls.map (·.flatMap code)) := by
  induction h with
  | nil => exact .nil
  | @last line hne h =>
    refine .last ?_ (mt hlf.mem_flatMap_iff.mp h)
    obtain ⟨c, cs, rfl⟩ := List.exists_cons_of_ne_nil hne
    rw [List.flatMap_cons]
    exact List.append_ne_nil_of_left_ne_nil (hcode c) _
  | feed h hlast _ ih =>
    rw [List.flatMap_append, List.flatMap_cons, hlf.code_eq]
    exact .feed (mt hlf.mem_flatMap_iff.mp h) (hcr.getLast?_flatMap hcode hlast) ih
  | returnFeed h _ ih =>
    rw [List.flatMap_append, List.flatMap_cons, List.flatMap_cons, hlf.code_eq, hcr.code_eq]
    exact .returnFeed (mt hlf.mem_flatMap_iff.mp h) ih

/-- If all lines of a list are codes, the list is a code. -/
theorem IsLines.exists_flatMap {code : α → List β} {lf cr : α} {lf' cr' : β}
    (hlf : Separates code lf lf') (hcr : Separates code cr cr') {coded : List β}
    {ls : List (List β)} (h : IsLines lf' cr' coded ls)
    (hls : ∀ l ∈ ls, ∃ line, l = List.flatMap code line) :
    ∃ text, coded = List.flatMap code text := by
  induction h with
  | nil => exact ⟨[], rfl⟩
  | last => exact hls _ List.mem_cons_self
  | feed _ _ _ ih =>
    rw [List.forall_mem_cons] at hls
    obtain ⟨⟨line, rfl⟩, hls⟩ := hls
    obtain ⟨text, rfl⟩ := ih hls
    exact ⟨line ++ lf :: text, by rw [List.flatMap_append, List.flatMap_cons, hlf.code_eq]; rfl⟩
  | returnFeed _ _ ih =>
    rw [List.forall_mem_cons] at hls
    obtain ⟨⟨line, rfl⟩, hls⟩ := hls
    obtain ⟨text, rfl⟩ := ih hls
    refine ⟨line ++ cr :: lf :: text, ?_⟩
    rw [List.flatMap_append, List.flatMap_cons, List.flatMap_cons, hlf.code_eq, hcr.code_eq]
    rfl

/-! ### Bytes -/

/-- The bytes of a text in UTF-8. -/
def utf8 (text : String) : List UInt8 := text.toList.flatMap String.utf8EncodeChar

/-- A character below 128 stands for itself in UTF-8, and all other bytes are from 128 on. -/
theorem eq_of_mem_utf8EncodeChar {b : UInt8} {c : Char} (hb : b.toNat < 128)
    (h : b ∈ String.utf8EncodeChar c) : c.toNat = b.toNat := by
  have hlarge {n : Nat} (hle : 128 ≤ n) (hlt : n < 256) : b ≠ UInt8.ofNat n := by
    rintro rfl
    rw [UInt8.toNat_ofNat', Nat.mod_eq_of_lt hlt] at hb
    omega
  unfold String.utf8EncodeChar at h
  simp only at h
  split at h
  · next hle =>
    rw [List.mem_singleton.mp h, UInt8.toNat_ofNat', Nat.mod_eq_of_lt (by omega)]
    rfl
  · split at h
    · simp only [List.mem_cons, List.not_mem_nil, or_false] at h
      rcases h with h | h <;> exact absurd h (hlarge (by omega) (by omega))
    · split at h <;> simp only [List.mem_cons, List.not_mem_nil, or_false] at h
      · rcases h with h | h | h <;> exact absurd h (hlarge (by omega) (by omega))
      · rcases h with h | h | h | h <;> exact absurd h (hlarge (by omega) (by omega))

/-- A character that is one byte below 128 stands for itself alone in UTF-8. -/
theorem separates_utf8EncodeChar {b : UInt8} {c : Char} (hb : b.toNat < 128)
    (hcode : String.utf8EncodeChar c = [b]) : Separates String.utf8EncodeChar c b := by
  have hmem : b ∈ String.utf8EncodeChar c := hcode ▸ List.mem_singleton_self b
  refine ⟨hcode, fun d hd hmem' ↦ hd (Char.toNat_inj.mp ?_)⟩
  rw [eq_of_mem_utf8EncodeChar hb hmem', eq_of_mem_utf8EncodeChar hb hmem]

theorem separates_lineFeed : Separates String.utf8EncodeChar '\n' 10 :=
  separates_utf8EncodeChar (by decide) rfl

theorem separates_carriageReturn : Separates String.utf8EncodeChar '\r' 13 :=
  separates_utf8EncodeChar (by decide) rfl

theorem toByteArray_eq (text : String) : text.toByteArray = ⟨(utf8 text).toArray⟩ := by
  refine ByteArray.ext (Array.toList_inj.mp ?_)
  rw [← String.utf8Encode_toList, List.utf8Encode, List.toList_data_toByteArray]
  rfl

/-- A list of bytes is decoded as the text that it is the UTF-8 form of. -/
theorem decode?_eq_some_iff {bytes : List UInt8} {text : String} :
    decode? bytes = some text ↔ utf8 text = bytes := by
  have hbytes : utf8 text = bytes ↔ text.toByteArray = ⟨bytes.toArray⟩ := by
    rw [toByteArray_eq]
    exact ⟨fun h ↦ by rw [h], fun h ↦ List.toArray_inj (ByteArray.mk.inj h)⟩
  rw [hbytes, decode?, String.fromUTF8?]
  constructor
  · intro h
    obtain ⟨hvalid, heq⟩ := Option.dite_none_right_eq_some.mp h
    rw [← Option.some.inj heq]
    rfl
  · intro h
    rw [← h, dif_pos text.isValidUTF8]
    rfl

theorem decode?_utf8 (text : String) : decode? (utf8 text) = some text :=
  decode?_eq_some_iff.mpr rfl

theorem utf8_injective : Function.Injective utf8 := fun text other h ↦ by
  have hdecode := decode?_utf8 text
  rw [h, decode?_utf8] at hdecode
  exact (Option.some.inj hdecode).symm

/-- A text and its bytes have the same lines. -/
theorem isLines_utf8 {text : String} {ls : List String}
    (h : IsLines '\n' '\r' text.toList (ls.map String.toList)) :
    IsLines 10 13 (utf8 text) (ls.map utf8) := by
  have hbytes := h.flatMap separates_lineFeed separates_carriageReturn
    fun _ ↦ String.utf8EncodeChar_ne_nil
  rwa [List.map_map] at hbytes

/-- If all lines of a list of bytes are in UTF-8, so is the list. -/
theorem exists_utf8_of_isLines {bytes : List UInt8} {ls : List (List UInt8)}
    (h : IsLines 10 13 bytes ls) (hls : ∀ l ∈ ls, ∃ line, utf8 line = l) :
    ∃ text, utf8 text = bytes := by
  have hcodes : ∀ l ∈ ls, ∃ line, l = List.flatMap String.utf8EncodeChar line := fun l hl ↦
    (hls l hl).imp' String.toList fun _ hline ↦ hline.symm
  obtain ⟨text, rfl⟩ := h.exists_flatMap separates_lineFeed separates_carriageReturn hcodes
  exact ⟨String.ofList text, by rw [utf8, String.toList_ofList]⟩

end DeskCalculator
