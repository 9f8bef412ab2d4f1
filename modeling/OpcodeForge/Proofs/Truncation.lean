import OpcodeForge.Proofs.Decoding
import OpcodeForge.Proofs.RoundTrip

/-!
# Cut bytecode

The first bytes of a buffer that decodes. A cut between two instructions keeps those before it; a cut
inside an instruction is reported where that instruction starts, as its truncation. No other place
and no other error is possible, whatever the program and wherever the cut.
-/

namespace OpcodeForge

namespace Bytecode

variable {b : Bytecode} {offset k : Nat}

theorem size_take (h : k ≤ b.size) : (b.take k).size = k := by
  simp only [Bytecode.take, Bytecode.size, Array.take_eq_extract, Array.size_extract] at h ⊢
  omega

theorem take_size : b.take b.size = b := by
  simp [Bytecode.take, Bytecode.size]

theorem take_take (h : offset ≤ k) : (b.take k).take offset = b.take offset := by
  simp [Bytecode.take, Nat.min_eq_left h]

theorem readByte?_take (h : offset < k) : (b.take k).readByte? offset = b.readByte? offset := by
  simp only [readByte?, ← Array.getElem?_toList, Bytecode.take, Array.take_eq_extract,
    Array.toList_extract, List.extract_eq_take_drop]
  simp [h]

end Bytecode

namespace Program

open Instruction

variable {t : Table} {b : Bytecode} {offset stop start next k : Nat} {i : Decoded}
  {out before after : List (Nat × Decoded)}

/-! ## Where instructions stand -/

theorem reaches_append_iff (ht : t.WellFormed) :
    Reaches t b offset stop (before ++ after) ↔
      ∃ middle, Reaches t b offset middle before ∧ Reaches t b middle stop after := by
  induction before generalizing offset with
  | nil =>
      constructor
      · intro h
        exact ⟨offset, .nil, h⟩
      · rintro ⟨middle, hbefore, hafter⟩
        obtain rfl : middle = offset := hbefore.stop_eq
        exact hafter
  | cons entry before ih =>
      obtain ⟨start, i⟩ := entry
      simp only [List.cons_append, reaches_cons_iff ht, ih]
      constructor
      · rintro ⟨rfl, next, hread, middle, hbefore, hafter⟩
        exact ⟨middle, ⟨rfl, next, hread, hbefore⟩, hafter⟩
      · rintro ⟨middle, ⟨rfl, next, hread, hbefore⟩, hafter⟩
        exact ⟨rfl, next, hread, middle, hbefore, hafter⟩

theorem reaches_size_iff (ht : t.WellFormed) : Reaches t b 0 b.size out ↔ decode t b = .ok out := by
  rw [← decode_take_eq_ok_iff ht (Nat.le_refl _), Bytecode.take_size]

theorem Reaches.le (h : Reaches t b offset stop out) : offset ≤ stop := by
  rw [h.stop_eq]
  exact Nat.le_add_right _ _

theorem Reaches.bounds (ht : t.WellFormed) (h : Reaches t b offset stop out) :
    ∀ entry ∈ out, offset ≤ entry.1 ∧ entry.1 < stop := by
  induction out generalizing offset with
  | nil => exact fun _ hmem => absurd hmem List.not_mem_nil
  | cons entry out ih =>
      obtain ⟨start, i⟩ := entry
      obtain ⟨rfl, next, hread, hrest⟩ := (reaches_cons_iff ht).mp h
      have hnext := Decoded.lt_of_read? hread
      have hstop := hrest.le
      intro entry hmem
      rcases List.mem_cons.mp hmem with rfl | hmem
      · exact ⟨Nat.le_refl _, Nat.lt_of_lt_of_le hnext hstop⟩
      · obtain ⟨hle, hlt⟩ := ih hrest entry hmem
        exact ⟨by omega, hlt⟩

/-- Every position up to the end lies in one of the instructions. -/
theorem Reaches.exists_at (ht : t.WellFormed) (h : Reaches t b offset stop out) (hle : offset ≤ k)
    (hlt : k < stop) :
    ∃ before start i next after, out = before ++ (start, i) :: after ∧
      Decoded.read? t b start = some (i, next) ∧ start ≤ k ∧ k < next := by
  induction out generalizing offset with
  | nil =>
      have hstop : stop = offset := h.stop_eq
      omega
  | cons entry out ih =>
      obtain ⟨start, i⟩ := entry
      obtain ⟨rfl, next, hread, hrest⟩ := (reaches_cons_iff ht).mp h
      by_cases hk : k < next
      · exact ⟨[], start, i, next, out, rfl, hread, hle, hk⟩
      · obtain ⟨before, start', i', next', after, rfl, hread', hle', hlt'⟩ :=
          ih hrest (Nat.le_of_not_lt hk)
        exact ⟨(start, i) :: before, start', i', next', after, rfl, hread', hle', hlt'⟩

theorem decode_split (ht : t.WellFormed) (h : decode t b = .ok (before ++ (start, i) :: after)) :
    Reaches t b 0 start before ∧
      ∃ next, Decoded.read? t b start = some (i, next) ∧ Reaches t b next b.size after := by
  obtain ⟨middle, hbefore, hrest⟩ := (reaches_append_iff ht).mp ((reaches_size_iff ht).mpr h)
  obtain ⟨rfl, next, hread, hafter⟩ := (reaches_cons_iff ht).mp hrest
  exact ⟨hbefore, next, hread, hafter⟩

/-! ## Cuts -/

/-- A cut where an instruction starts keeps the instructions before it. -/
theorem decode_take_of_start (ht : t.WellFormed)
    (h : decode t b = .ok (before ++ (start, i) :: after)) :
    decode t (b.take start) = .ok before := by
  obtain ⟨hbefore, next, hread, hafter⟩ := decode_split ht h
  have hle : start ≤ b.size :=
    Nat.le_trans (Nat.le_of_lt (Decoded.lt_of_read? hread)) hafter.le
  exact (decode_take_eq_ok_iff ht hle).mpr hbefore

/-- A cut inside an instruction is the truncation of that instruction. -/
theorem decode_take_of_inside (ht : t.WellFormed)
    (h : decode t b = .ok (before ++ (start, i) :: after))
    (hread : Decoded.read? t b start = some (i, next)) (hlt : start < k) (hcut : k < next) :
    decode t (b.take k) = .error (.truncated start i.name) := by
  obtain ⟨hvalid, hholds, rfl⟩ := (Decoded.read?_eq_some_iff ht).mp hread
  have hend : start + i.descriptor.wireSize ≤ b.size := by
    have := hholds.le_size (by simp [Decoded.wire])
    rwa [hvalid.length_wire] at this
  have hsize : (b.take k).size = k := Bytecode.size_take (by omega)
  have hbyte : (b.take k).readByte? start = some i.descriptor.ordinal := by
    rw [Bytecode.readByte?_take hlt]
    exact (Bytecode.holds_cons.mp hholds).1
  have hexplains : Explains t (b.take k) start (.truncated start i.name) :=
    .truncated hbyte hvalid.1 (by rw [hsize]; omega)
  have hstuck : Stuck t (b.take k) start := by
    refine ⟨by rw [hsize]; exact hlt, ⟨before, ?_⟩, ((explains_iff ht hbyte).mp hexplains).1⟩
    rw [Bytecode.take_take (Nat.le_of_lt hlt)]
    exact decode_take_of_start ht h
  exact (decode_eq_error_iff ht).mpr ⟨start, hstuck, hexplains⟩

/-- The offsets of the entries and the end of the buffer are the places where a cut leaves whole
instructions. -/
theorem decode_take_of_getElem? (ht : t.WellFormed) (h : decode t b = .ok out) {j : Nat}
    (hj : (out.map Prod.fst ++ [b.size])[j]? = some k) :
    decode t (b.take k) = .ok (out.take j) := by
  -- an entry starts at the cut, or the cut is at the end of the buffer
  by_cases hlt : j < out.length
  · rw [List.getElem?_append_left (by simpa using hlt), List.getElem?_map,
      List.getElem?_eq_getElem hlt] at hj
    have hsplit : out = out.take j ++ (k, out[j].2) :: out.drop (j + 1) := by
      cases hj
      rw [← List.drop_eq_getElem_cons hlt, List.take_append_drop]
    exact decode_take_of_start ht (hsplit ▸ h)
  · obtain ⟨hlt', hk⟩ := List.getElem?_eq_some_iff.mp hj
    obtain rfl : j = out.length := by
      simp only [List.length_append, List.length_map, List.length_singleton] at hlt'
      omega
    simp only [List.length_map, List.getElem_concat_length] at hk
    rw [← hk, Bytecode.take_size, h, List.take_length]

/-- At any other place the entry that starts last before the cut is truncated. -/
theorem exists_truncated_of_notMem (ht : t.WellFormed) (h : decode t b = .ok out) (hk : k < b.size)
    (hnot : k ∉ out.map Prod.fst) :
    ∃ before start i after, out = before ++ (start, i) :: after ∧ start < k ∧
      (∀ offset ∈ out.map Prod.fst, offset < k → offset ≤ start) ∧
      decode t (b.take k) = .error (.truncated start i.name) := by
  obtain ⟨before, start, i, next, after, rfl, hread, hle, hcut⟩ :=
    ((reaches_size_iff ht).mpr h).exists_at ht (Nat.zero_le _) hk
  have hlt : start < k := by
    refine Nat.lt_of_le_of_ne hle ?_
    rintro rfl
    exact hnot (by simp)
  refine ⟨before, start, i, after, rfl, hlt, ?_, decode_take_of_inside ht h hread hlt hcut⟩
  obtain ⟨hbefore, next', hread', hafter⟩ := decode_split ht h
  cases hread.symm.trans hread'
  intro offset hmem hoffset
  obtain ⟨entry, hentry, rfl⟩ := List.mem_map.mp hmem
  rcases List.mem_append.mp hentry with hentry | hentry
  · exact Nat.le_of_lt (hbefore.bounds ht entry hentry).2
  · rcases List.mem_cons.mp hentry with rfl | hentry
    · exact Nat.le_refl _
    · have := (hafter.bounds ht entry hentry).1
      omega

/-! ## Encoded programs -/

theorem exists_getElem?_of_forall₂_append {program : List Instruction} {before after : List Decoded}
    (h : List.Forall₂ OnWire program (before ++ i :: after)) :
    ∃ j, program[before.length]? = some j ∧ j.OnWire i := by
  have hdrop := List.forall₂_drop_append _ _ _ h
  obtain ⟨j, rest, hj, -, hrest⟩ := List.forall₂_cons_right_iff.mp hdrop
  refine ⟨j, ?_, hj⟩
  rw [← Nat.add_zero before.length, ← List.getElem?_drop, hrest]
  rfl

/-- The instruction of a program that starts last before a cut, and where it starts. -/
structure LastBefore (program : List Instruction) (k offset : Nat) (i : Instruction) : Prop where
  position : ∃ j : Nat, program[j]? = some i ∧ (layout program)[j]? = some offset
  lt : offset < k
  greatest : ∀ offset' ∈ layout program, offset' < k → offset' ≤ offset

theorem exists_lastBefore_of_notMem (ht : t.WellFormed) {program : List Instruction}
    (h : decode t b = .ok out) (hfst : out.map Prod.fst = layout program)
    (hwire : List.Forall₂ OnWire program (out.map Prod.snd)) (hk : k < b.size)
    (hnot : k ∉ layout program) :
    ∃ offset i, LastBefore program k offset i ∧
      decode t (b.take k) = .error (.truncated offset i.name) := by
  obtain ⟨before, start, d, after, rfl, hlt, hlast, herror⟩ :=
    exists_truncated_of_notMem ht h hk (hfst ▸ hnot)
  rw [List.map_append] at hwire
  obtain ⟨i, hi, hd⟩ := exists_getElem?_of_forall₂_append hwire
  have hname : d.name = i.name := congrArg Descriptor.name hd.descriptor
  refine ⟨start, i, ⟨⟨before.length, by simpa using hi, by simp [← hfst]⟩, hlt, hfst ▸ hlast⟩, ?_⟩
  rw [herror, hname]

/-- Decoding the first bytes of an encoded program. Up to the start of the instruction at `j`, or up
to the end, it gives the first `j` entries of the whole; at any other place it reports the
instruction that starts last before the cut as truncated. -/
theorem decode_take_encoded {document : String} {t : Table} {program : List Instruction}
    {b : Bytecode} (ht : Table.ofText document = .ok t)
    (hprogram : ∀ i ∈ program, ∃ name operands, Instruction.build t name operands = .ok i)
    (hb : encode program = .ok b) :
    ∃ out, decode t b = .ok out ∧ out.map Prod.fst = layout program ∧
      List.Forall₂ Restores program (out.map Prod.snd) ∧
      ∀ k ≤ b.size,
        (∀ j, (layout program ++ [b.size])[j]? = some k →
          decode t (b.take k) = .ok (out.take j)) ∧
        (k ∉ layout program ++ [b.size] →
          ∃ offset i, LastBefore program k offset i ∧
            decode t (b.take k) = .error (.truncated offset i.name)) ∧
        ∀ offset byte, decode t (b.take k) ≠ .error (.unknownOpcode offset byte) := by
  have hwf := Table.WellFormed.of_ofText ht
  obtain ⟨out, hout, hfst, hwire⟩ := exists_decode_of_encode hwf (forall_built hwf hprogram) hb
  refine ⟨out, hout, hfst, hwire.imp fun _ _ h => .of_onWire h, fun k hk => ?_⟩
  have hbetween : ∀ j, (layout program ++ [b.size])[j]? = some k →
      decode t (b.take k) = .ok (out.take j) := fun j hj =>
    decode_take_of_getElem? hwf hout (hfst ▸ hj)
  have hinside : k ∉ layout program ++ [b.size] → ∃ offset i, LastBefore program k offset i ∧
      decode t (b.take k) = .error (.truncated offset i.name) := by
    intro hnot
    simp only [List.mem_append, List.mem_singleton, not_or] at hnot
    exact exists_lastBefore_of_notMem hwf hout hfst hwire (by omega) hnot.1
  refine ⟨hbetween, hinside, fun offset byte herror => ?_⟩
  by_cases hmem : k ∈ layout program ++ [b.size]
  · obtain ⟨j, hj⟩ := List.mem_iff_getElem?.mp hmem
    rw [hbetween j hj] at herror
    cases herror
  · obtain ⟨offset', i, -, htruncated⟩ := hinside hmem
    rw [htruncated] at herror
    cases herror

/-- A cut between the two bytes of the operand of a jump. -/
theorem decode_take_encoded_cut_jump :
    Table.ofText Table.pushJumpText = .ok ⟨[Table.push, Table.jump]⟩ ∧
    encode [⟨Table.push, [-2]⟩, ⟨Table.jump, [300]⟩] = .ok ⟨#[0, 254, 1, 44, 1]⟩ ∧
    decode ⟨[Table.push, Table.jump]⟩ (Bytecode.take ⟨#[0, 254, 1, 44, 1]⟩ 4) =
      .error (.truncated 2 "Jump") := by
  have hb : encode [⟨Table.push, [-2]⟩, ⟨Table.jump, [300]⟩] = .ok ⟨#[0, 254, 1, 44, 1]⟩ := by
    decide +kernel
  have hprogram : ∀ i ∈ [(⟨Table.push, [-2]⟩ : Instruction), ⟨Table.jump, [300]⟩],
      ∃ name operands, Instruction.build ⟨[Table.push, Table.jump]⟩ name operands = .ok i := by
    intro i hi
    simp only [List.mem_cons, List.not_mem_nil, or_false] at hi
    rcases hi with rfl | rfl
    · exact ⟨"Push", [-2], by decide +kernel⟩
    · exact ⟨"Jump", [300], by decide +kernel⟩
  obtain ⟨out, -, -, -, hcuts⟩ := decode_take_encoded Table.ofText_pushJumpText hprogram hb
  obtain ⟨-, hinside, -⟩ := hcuts 4 (by decide)
  obtain ⟨offset, i, ⟨⟨j, hi, hoffset⟩, -, hlast⟩, herror⟩ := hinside (by decide)
  refine ⟨Table.ofText_pushJumpText, hb, ?_⟩
  -- the offsets are 0 and 2, and 2 is the last before the cut
  match j with
  | 0 =>
      cases hoffset
      exact absurd (hlast 2 (by decide) (by decide)) (by decide)
  | 1 =>
      cases hoffset
      cases hi
      exact herror
  | j + 2 => cases hi

end Program

end OpcodeForge
