import Mathlib.Data.Nat.Bitwise
import WasmDebugger.Binary.Reader
import WasmDebugger.Proofs.Watchpoints

/-!
# Bytes in memory

A number stands in memory with its low byte first, whatever its width. An access reaches exactly
the bytes from its effective address on, and that address is a sum of natural numbers.

* `ByteOf`: the byte of a number at a place. `littleEndian_of_byteOf`: a number is what its bytes
  spell.
* `LinearMemory.Holds`, `LinearMemory.Written`: what memory holds at an address, and how it
  differs when a number has been written there.
* `LoadOp.Reads`: the value that an operation makes of the bytes it has read.
* `load_cases`, `store_cases`: what an access comes to when its operands are there.
* **`bytes_read_back`**: loads and stores succeed inside memory and are faults outside; a load
  sees the bytes of the stores before it, and at their own width their values.
-/

namespace WasmDebugger

open Reader (littleEndian)

/-! ## Bytes of numbers -/

/-- The byte of a number whose lowest bit is at `8 * k`. -/
def ByteOf (n k : Nat) (b : UInt8) : Prop := ∀ i < 8, b.toNat.testBit i = n.testBit (8 * k + i)

theorem byteOf_toUInt8 (n : Nat) : ByteOf n 0 n.toUInt8 := by
  intro i hi
  rw [Nat.toUInt8, UInt8.toNat_ofNat', Nat.testBit_mod_two_pow, Nat.mul_zero, Nat.zero_add]
  simp [hi]

theorem byteOf_succ_iff {n k : Nat} {b : UInt8} : ByteOf n (k + 1) b ↔ ByteOf (n / 256) k b := by
  unfold ByteOf
  refine forall₂_congr fun i _ => ?_
  have hplace : 8 * (k + 1) + i = 8 * k + i + 8 := by omega
  rw [show 256 = 2 ^ 8 by rfl, Nat.testBit_div_two_pow, hplace]

theorem toNat_of_byteOf {n : Nat} {b : UInt8} (h : ByteOf n 0 b) : b.toNat = n % 256 := by
  refine Nat.eq_of_testBit_eq fun i => ?_
  rw [show 256 = 2 ^ 8 by rfl, Nat.testBit_mod_two_pow]
  by_cases hi : i < 8
  · simpa [hi] using h i hi
  · have hb : b.toNat < 2 ^ i := b.toNat_lt.trans_le (Nat.pow_le_pow_right (by omega) (by omega))
    simp [hi, Nat.testBit_lt_two_pow hb]

theorem littleEndian_lt (content : List UInt8) : littleEndian content < 256 ^ content.length := by
  induction content with
  | nil => simp [littleEndian]
  | cons b rest ih =>
    have hb := b.toNat_lt
    rw [littleEndian, List.length_cons, pow_succ]
    omega

/-- **A number is what its bytes spell.** -/
theorem littleEndian_of_byteOf {content : List UInt8} {n : Nat} (hn : n < 256 ^ content.length)
    (h : ∀ k b, content[k]? = some b → ByteOf n k b) : littleEndian content = n := by
  induction content generalizing n with
  | nil =>
    rw [List.length_nil, pow_zero] at hn
    rw [littleEndian]
    omega
  | cons b rest ih =>
    have hb := toNat_of_byteOf (h 0 b rfl)
    have hrest : littleEndian rest = n / 256 := by
      refine ih ?_ fun k b' hb' => byteOf_succ_iff.mp (h (k + 1) b' hb')
      rw [List.length_cons, pow_succ] at hn
      exact Nat.div_lt_of_lt_mul (by omega)
    rw [littleEndian, hb, hrest]
    exact Nat.mod_add_div n 256

/-! ## Memory -/

namespace LinearMemory

/-- What memory holds from an address on. -/
def Holds (memory : LinearMemory) (address : Nat) (content : List UInt8) : Prop :=
  ∀ k < content.length, memory.byte? (address + k) = content[k]?

/-- **A number has been written to memory**: so many bytes from an address on are those of the
number, and the others are what they were. -/
structure Written (memory : LinearMemory) (address width n : Nat)
    (memory' : LinearMemory) : Prop where
  size : memory'.size = memory.size
  pages : memory'.pages = memory.pages
  bound : memory'.bound = memory.bound
  inside : ∀ k < width, ∃ b, memory'.byte? (address + k) = some b ∧ ByteOf n k b
  outside : ∀ j, j < address ∨ address + width ≤ j → memory'.byte? j = memory.byte? j

/-- Content at an address, seen when a number has been written to memory: where the ranges overlap
it is made of bytes of the number, and elsewhere of the old ones. -/
structure Sees (memory : LinearMemory) (address width n start : Nat) (content : List UInt8) :
    Prop where
  written : ∀ k b, content[k]? = some b → address ≤ start + k → start + k < address + width →
    ByteOf n (start + k - address) b
  old : ∀ k b, content[k]? = some b → start + k < address ∨ address + width ≤ start + k →
    memory.byte? (start + k) = some b

variable {bytes : ByteArray} {memory memory' : LinearMemory} {address width : Nat}

theorem getElem?_bytes (bytes : ByteArray) (k : Nat) : bytes[k]? = bytes.data[k]? := by
  by_cases h : k < bytes.size
  · rw [getElem?_pos bytes k h, Array.getElem?_eq_getElem h]
    rfl
  · rw [getElem?_neg bytes k h, Array.getElem?_eq_none (by simpa using h)]

theorem byte?_eq_some {k : Nat} (memory : LinearMemory) (h : k < memory.size) :
    ∃ b, memory.byte? k = some b :=
  ⟨_, Array.getElem?_eq_getElem h⟩

/-- What is read is what the bytes spell. -/
theorem exists_holds (memory : LinearMemory) (h : address + width ≤ memory.size) :
    ∃ content, content.length = width ∧ memory.Holds address content ∧
      readNat memory.bytes address width = littleEndian content := by
  induction width generalizing address with
  | zero => exact ⟨[], rfl, fun k hk => absurd hk (Nat.not_lt_zero k), rfl⟩
  | succ width ih =>
    obtain ⟨b, hb⟩ := memory.byte?_eq_some (show address < memory.size by omega)
    obtain ⟨rest, hlength, hholds, hread⟩ := @ih (address + 1) (by omega)
    refine ⟨b :: rest, by rw [List.length_cons, hlength], fun k hk => ?_, ?_⟩
    · cases k with
      | zero => exact hb
      | succ k =>
        rw [List.getElem?_cons_succ, ← hholds k (Nat.lt_of_succ_lt_succ hk)]
        congr 1
        omega
    · have hb' : memory.bytes[address]? = some b := (getElem?_bytes _ _).trans hb
      rw [readNat, hread, hb', littleEndian]
      rfl

theorem size_setByte (b : UInt8) : (setByte bytes address b).size = bytes.size := by
  unfold setByte
  split
  · rename_i h
    show (bytes.set address b h).data.size = bytes.data.size
    rw [ByteArray.data_set, Array.size_set]
  · rfl

theorem size_writeNat (n : Nat) : (writeNat bytes address n width).size = bytes.size := by
  induction width generalizing bytes address n with
  | zero => rfl
  | succ width ih => rw [writeNat, ih, size_setByte]

theorem getElem?_setByte_self (b : UInt8) (h : address < bytes.size) :
    (setByte bytes address b).data[address]? = some b := by
  unfold setByte
  rw [dif_pos h, ByteArray.data_set]
  exact Array.getElem?_set_self _

/-- The bytes of a number lie where it has been written. -/
theorem byteOf_writeNat {n k : Nat} (h : address + width ≤ bytes.size) (hk : k < width) :
    ∃ b, (writeNat bytes address n width).data[address + k]? = some b ∧ ByteOf n k b := by
  induction width generalizing bytes address n k with
  | zero => exact absurd hk (Nat.not_lt_zero k)
  | succ width ih =>
    rw [writeNat]
    cases k with
    | zero =>
      refine ⟨n.toUInt8, ?_, byteOf_toUInt8 n⟩
      rw [getElem?_writeNat _ (by omega)]
      exact getElem?_setByte_self _ (by omega)
    | succ k =>
      have hin : address + 1 + width ≤ (setByte bytes address n.toUInt8).size := by
        rw [size_setByte]
        omega
      obtain ⟨b, hb, hn⟩ := @ih _ _ (n / 256) k hin (by omega)
      refine ⟨b, ?_, byteOf_succ_iff.mpr hn⟩
      rw [← hb]
      congr 1
      omega

theorem written_write (n : Nat) (h : address + width ≤ memory.size) :
    memory.Written address width n (memory.write address width n) where
  size := size_writeNat n
  pages := rfl
  bound := rfl
  inside _ hk := byteOf_writeNat h hk
  outside _ hj := byte?_write n hj

theorem Written.sees {n start : Nat} {content : List UInt8}
    (h : memory.Written address width n memory') (hc : memory'.Holds start content) :
    memory.Sees address width n start content := by
  have hbyte {k : Nat} {b : UInt8} (hb : content[k]? = some b) :
      memory'.byte? (start + k) = some b :=
    (hc k (List.getElem?_eq_some_iff.mp hb).1).trans hb
  constructor
  · intro k b hb hlow hhigh
    obtain ⟨b', hb', hn⟩ := h.inside (start + k - address) (by omega)
    rw [show address + (start + k - address) = start + k by omega, hbyte hb] at hb'
    cases hb'
    exact hn
  · intro k b hb hout
    rw [← h.outside _ hout]
    exact hbyte hb

end LinearMemory

/-! ## Values -/

theorem Width.pow_bytes (w : Width) : 256 ^ (w.bits / 8) = 2 ^ w.bits := by
  cases w <;> rfl

theorem Narrow.pow_bytes (part : Narrow) : 256 ^ part.bytes = 2 ^ part.bits := by
  cases part <;> rfl

theorem Narrow.bits_le (part : Narrow) : part.bits ≤ part.width.bits := by
  cases part <;> decide

theorem Value.toNat_lt (v : Value) : v.toNat < 2 ^ v.type.width.bits := by
  cases v with
  | i32 b | i64 b | f32 b | f64 b => exact b.isLt

theorem Value.toNat_ofNat {t : ValueType} {n : Nat} (h : n < 2 ^ t.width.bits) :
    (ofNat t n).toNat = n := by
  cases t <;> exact Nat.mod_eq_of_lt h

/-- Type and bits make up a value. -/
theorem Value.eq_of_toNat {v v' : Value} (ht : v.type = v'.type) (hn : v.toNat = v'.toNat) :
    v = v' := by
  cases v with
  | i32 b | i64 b | f32 b | f64 b =>
    cases v' <;> first | exact congrArg _ (BitVec.toNat_inj.mp hn) | exact absurd ht nofun

/-- **The value that a load makes of the bytes it has read.** They spell the bits of the value, or
a narrower number, unsigned or in two's complement, that the value is equal to. -/
def LoadOp.Reads (op : LoadOp) (content : List UInt8) (v : Value) : Prop :=
  let n := littleEndian content
  match op with
  | .whole t => v.type = t ∧ v.toNat = n
  | .narrow part false => ∃ b, v = .int part.width b ∧ b.toNat = n
  | .narrow part true => ∃ b, v = .int part.width b ∧
      b.toInt = if 2 * n < 2 ^ part.bits then (n : Int) else (n : Int) - 2 ^ part.bits

theorem LoadOp.reads_value (op : LoadOp) {content : List UInt8} (h : content.length = op.bytes) :
    op.Reads content (op.value (littleEndian content)) := by
  have hlt := littleEndian_lt content
  rw [h] at hlt
  match op with
  | .whole t =>
    rw [bytes, Width.pow_bytes] at hlt
    exact ⟨Value.type_ofNat t _, Value.toNat_ofNat hlt⟩
  | .narrow part false =>
    rw [bytes, part.pow_bytes] at hlt
    refine ⟨_, rfl, ?_⟩
    rw [BitVec.toNat_ofNat]
    exact Nat.mod_eq_of_lt (hlt.trans_le (Nat.pow_le_pow_right (by omega) part.bits_le))
  | .narrow part true =>
    rw [bytes, part.pow_bytes] at hlt
    refine ⟨_, rfl, ?_⟩
    rw [BitVec.toInt_signExtend_of_le part.bits_le, BitVec.toInt_eq_toNat_cond, BitVec.toNat_ofNat,
      Nat.mod_eq_of_lt hlt, Int.natCast_pow]
    rfl

/-- The type of the value that a store takes. -/
def StoreOp.operandType : StoreOp → ValueType
  | .whole t => t
  | .narrow part => .int part.width

theorem StoreOp.operand?_eq (op : StoreOp) {v : Value} (h : v.type = op.operandType) :
    op.operand? v = some v.toNat := by
  cases op with
  | whole t => exact if_pos h
  | narrow part =>
    cases part <;> cases v <;> first | rfl | exact absurd h nofun

/-! ## Accesses -/

namespace Machine

/-- A load is about to be carried out, at the address on top of the stack. -/
structure AboutToLoad (setup : Setup) (m : Machine) (op : LoadOp) (arg : MemArg)
    (memory : LinearMemory) (a : BitVec 32) (rest : List Value) : Prop where
  frames : m.frames ≠ []
  instr : fetch? setup m.ip = some (.load op arg)
  memory : m.memory? = some memory
  operands : m.stack.Offers [.i32 a] rest

/-- A store is about to be carried out, of the value on top of the stack and at the address under
it. -/
structure AboutToStore (setup : Setup) (m : Machine) (op : StoreOp) (arg : MemArg)
    (memory : LinearMemory) (a : BitVec 32) (v : Value) (rest : List Value) : Prop where
  frames : m.frames ≠ []
  instr : fetch? setup m.ip = some (.store op arg)
  memory : m.memory? = some memory
  operands : m.stack.Offers [.i32 a, v] rest
  type : v.type = op.operandType

variable {setup : Setup} {m : Machine} {arg : MemArg} {memory : LinearMemory} {a : BitVec 32}
  {v : Value} {rest : List Value}

/-- A load reads inside memory, or it is a fault. -/
theorem load_cases {op : LoadOp} (watch : Breakpoints)
    (h : AboutToLoad setup m op arg memory a rest) :
    (memory.size < effective a arg + op.bytes ∧
      m.dispatch setup watch = .fault .memoryOutOfBounds m) ∨
    (effective a arg + op.bytes ≤ memory.size ∧
      ∃ content v m', (m.dispatch setup watch).onward? = some m' ∧
        content.length = op.bytes ∧ memory.Holds (effective a arg) content ∧
        op.Reads content v ∧ m.GoneOn (v :: rest) m.memories m') := by
  have hbase : (m.stack.peek? 0).bind (Value.asInt? .w32) = some a := by
    rw [h.operands.peek? 0 rfl]
    rfl
  rw [dispatch_eq_execute h.frames h.instr]
  simp only [execute, executeLoad, h.memory, hbase, LinearMemory.read?, LinearMemory.inBounds,
    decide_eq_true_eq]
  by_cases hin : effective a arg + op.bytes ≤ memory.size
  · obtain ⟨content, hlength, hholds, hread⟩ := memory.exists_holds hin
    have hgone := goneOn_replace h.operands (op.value (littleEndian content))
    refine .inr ⟨hin, content, _, _, ?_, hlength, hholds, op.reads_value hlength, hgone⟩
    rw [if_pos hin, hread]
    exact onward?_watchedAt _ _
  · exact .inl ⟨by omega, by rw [if_neg hin]⟩

theorem goneOn_written {vs : List Value} (hmemory : m.memory? = some memory)
    (h : m.stack.Offers vs rest) (address width n : Nat) :
    m.GoneOn rest (m.memories.setIfInBounds 0 (memory.write address width n))
      ((m.setStack (m.stack.pop vs.length)).writeMemory address width n).advance where
  position := rfl
  values := h.drop
  floor := rfl
  limit := rfl
  frames := rfl
  globals := rfl
  memories := by
    refine Array.ext_getElem? fun k => ?_
    show (m.memories.modify 0 _)[k]? = _
    rw [Array.getElem?_modify, Array.getElem?_setIfInBounds]
    split
    · rename_i hk
      subst hk
      rw [if_pos (Array.getElem?_eq_some_iff.mp hmemory).1]
      exact congrArg (Option.map _) hmemory
    · rfl
  tables := rfl

/-- A store writes inside memory, or it is a fault. -/
theorem store_cases {op : StoreOp} (watch : Breakpoints)
    (h : AboutToStore setup m op arg memory a v rest) :
    (memory.size < effective a arg + op.bytes ∧
      m.dispatch setup watch = .fault .memoryOutOfBounds m) ∨
    (effective a arg + op.bytes ≤ memory.size ∧
      ∃ memory' m', (m.dispatch setup watch).onward? = some m' ∧
        memory.Written (effective a arg) op.bytes v.toNat memory' ∧
        m.GoneOn rest (m.memories.setIfInBounds 0 memory') m') := by
  have hvalue : (m.stack.peek? 0).bind op.operand? = some v.toNat := by
    rw [h.operands.peek? 0 rfl]
    exact op.operand?_eq h.type
  have hbase : (m.stack.peek? 1).bind (Value.asInt? .w32) = some a := by
    rw [h.operands.peek? 1 rfl]
    rfl
  obtain ⟨hsize, hfirst⟩ := Array.getElem?_eq_some_iff.mp h.memory
  have hsome : m.memories.isEmpty = false := by
    rw [Array.isEmpty_eq_false_iff_exists_mem]
    exact ⟨_, Array.getElem_mem hsize⟩
  rw [dispatch_eq_execute h.frames h.instr]
  simp only [execute, executeStore, hsome, hvalue, hbase, h.memory, Option.any_some,
    LinearMemory.inBounds, decide_eq_true_eq, Bool.false_eq_true, if_false]
  by_cases hin : effective a arg + op.bytes ≤ memory.size
  · have hgone := goneOn_written h.memory h.operands (effective a arg) op.bytes v.toNat
    refine .inr ⟨hin, _, _, ?_, LinearMemory.written_write v.toNat hin, hgone⟩
    rw [if_pos hin]
    exact onward?_watchedAt _ _
  · exact .inl ⟨by omega, by rw [if_neg hin]⟩

/-- A load at the same place and of the same width gives back what a store has written. -/
theorem toNat_of_sees {t t' : ValueType} {content : List UInt8} {address : Nat} {v' : Value}
    (ht : v.type = t) (hw : t.width = t'.width) (hlength : content.length = (LoadOp.whole t').bytes)
    (hv' : (LoadOp.whole t').Reads content v')
    (hs : memory.Sees address (StoreOp.whole t).bytes v.toNat address content) :
    v'.toNat = v.toNat := by
  have hbytes : (StoreOp.whole t).bytes = (LoadOp.whole t').bytes := by
    show t.width.bits / 8 = t'.width.bits / 8
    rw [hw]
  rw [hv'.2]
  refine littleEndian_of_byteOf ?_ fun k b hb => ?_
  · rw [hlength, LoadOp.bytes, Width.pow_bytes, ← hw, ← ht]
    exact v.toNat_lt
  · have hk := (List.getElem?_eq_some_iff.mp hb).1
    have hbyte := hs.written k b hb (by omega) (by omega)
    rwa [Nat.add_sub_cancel_left] at hbyte

/-- **Loads and stores are accesses to bytes.** An access succeeds if its bytes, counted without
wrapping around, lie inside memory, and otherwise it is a fault and nothing has changed. A load
gives what its bytes spell, extended as the operation says; a store changes its bytes to those of
the value and no others. A load after a store therefore sees the bytes stored where the ranges
overlap and the old ones elsewhere, and a load of a whole value gets back the bits of a value of
that width that was stored whole at that address. -/
theorem bytes_read_back (setup : Setup) (watch : Breakpoints) :
    (∀ m op arg memory a rest, AboutToLoad setup m op arg memory a rest →
      (a.toNat + arg.offset.toNat + op.bytes ≤ memory.size →
        ∃ content v m', (m.dispatch setup watch).onward? = some m' ∧
          content.length = op.bytes ∧ memory.Holds (a.toNat + arg.offset.toNat) content ∧
          op.Reads content v ∧ m.GoneOn (v :: rest) m.memories m') ∧
      (memory.size < a.toNat + arg.offset.toNat + op.bytes →
        m.dispatch setup watch = .fault .memoryOutOfBounds m)) ∧
    (∀ m op arg memory a v rest, AboutToStore setup m op arg memory a v rest →
      (a.toNat + arg.offset.toNat + op.bytes ≤ memory.size →
        ∃ memory' m', (m.dispatch setup watch).onward? = some m' ∧
          memory.Written (a.toNat + arg.offset.toNat) op.bytes v.toNat memory' ∧
          m.GoneOn rest (m.memories.setIfInBounds 0 memory') m') ∧
      (memory.size < a.toNat + arg.offset.toNat + op.bytes →
        m.dispatch setup watch = .fault .memoryOutOfBounds m)) ∧
    ∀ m op arg memory a v rest, AboutToStore setup m op arg memory a v rest →
      ∀ m₁, (m.dispatch setup watch).onward? = some m₁ →
      ∀ setup₂ m₂ op₂ arg₂ memory₂ a₂ rest₂, AboutToLoad setup₂ m₂ op₂ arg₂ memory₂ a₂ rest₂ →
        m₂.memory? = m₁.memory? →
      ∀ watch₂ m₃, (m₂.dispatch setup₂ watch₂).onward? = some m₃ →
        ∃ content v₂, content.length = op₂.bytes ∧ op₂.Reads content v₂ ∧
          m₂.GoneOn (v₂ :: rest₂) m₂.memories m₃ ∧
          memory.Sees (effective a arg) op.bytes v.toNat (effective a₂ arg₂) content ∧
          ∀ t t₂, op = .whole t → op₂ = .whole t₂ → t.width = t₂.width →
            effective a₂ arg₂ = effective a arg → v₂.toNat = v.toNat ∧ (t = t₂ → v₂ = v) := by
  refine ⟨fun m op arg memory a rest h => ?_, fun m op arg memory a v rest h => ?_,
    fun m op arg memory a v rest h m₁ h₁ setup₂ m₂ op₂ arg₂ memory₂ a₂ rest₂ h₂ hm watch₂ m₃ h₃ =>
      ?_⟩
  · rcases load_cases watch h with ⟨hout, hfault⟩ | ⟨hin, hdone⟩
    · exact ⟨fun hin => absurd hin (Nat.not_le_of_lt hout), fun _ => hfault⟩
    · exact ⟨fun _ => hdone, fun hout => absurd hin (Nat.not_le_of_lt hout)⟩
  · rcases store_cases watch h with ⟨hout, hfault⟩ | ⟨hin, hdone⟩
    · exact ⟨fun hin => absurd hin (Nat.not_le_of_lt hout), fun _ => hfault⟩
    · exact ⟨fun _ => hdone, fun hout => absurd hin (Nat.not_le_of_lt hout)⟩
  · rcases store_cases watch h with ⟨-, hfault⟩ | ⟨-, memory₁, m₁', h₁', hover, hgone₁⟩
    · exact absurd (hfault ▸ h₁) nofun
    · cases h₁.symm.trans h₁'
      rcases load_cases watch₂ h₂ with
        ⟨-, hfault⟩ | ⟨-, content, v₂, m₃', h₃', hlength, hholds, hreads, hgone₃⟩
      · exact absurd (hfault ▸ h₃) nofun
      · cases h₃.symm.trans h₃'
        have hmemory : m₁.memory? = some memory₁ := by
          unfold memory?
          rw [hgone₁.memories, Array.getElem?_setIfInBounds_self_of_lt]
          exact (Array.getElem?_eq_some_iff.mp h.memory).1
        cases (h₂.memory.symm.trans hm).trans hmemory
        have hsees := hover.sees hholds
        refine ⟨content, v₂, hlength, hreads, hgone₃, hsees, ?_⟩
        rintro t t₂ rfl rfl hw haddress
        rw [haddress] at hsees
        have hbits := toNat_of_sees h.type hw hlength hreads hsees
        refine ⟨hbits, fun ht => Value.eq_of_toNat ?_ hbits⟩
        exact hreads.1.trans (ht.symm.trans h.type.symm)

/-- A function that stores a float at its operand plus one and loads it from there. -/
def storingFloat : Setup where
  module :=
    { types := #[⟨[], []⟩]
      functions :=
        #[.defined 0 [] #[.store (.whole .f64) ⟨3, 1⟩, .load (.whole .f64) ⟨3, 1⟩, .blockEnd]] }
  limits := {}
  bridge := .unavailable

/-- A NaN that says something. -/
def payload : Value := .f64 0x7FF0000000000001

/-- The function, about to store the NaN at address two. -/
def aboutToStoreFloat : Machine where
  ip := ⟨0, 0⟩
  stack := (((OperandStack.empty 8).restore (.i32 2)).restore (.i32 2)).restore payload
  frames := [⟨0, #[], ⟨0, 0⟩, 0, []⟩]
  globals := #[]
  memories := #[⟨⟨Array.replicate 12 0⟩, 0, 1⟩]
  tables := #[]

/-- It comes back with all its bits. -/
theorem bytes_read_back_payload :
    AboutToStore storingFloat aboutToStoreFloat (.whole .f64) ⟨3, 1⟩
        ⟨⟨Array.replicate 12 0⟩, 0, 1⟩ 2 payload [.i32 2] ∧
      ∃ m₁ m₂, (aboutToStoreFloat.dispatch storingFloat {}).onward? = some m₁ ∧
        (m₁.dispatch storingFloat {}).onward? = some m₂ ∧ m₂.stack.values = [payload] := by
  have hstore : AboutToStore storingFloat aboutToStoreFloat (.whole .f64) ⟨3, 1⟩
      ⟨⟨Array.replicate 12 0⟩, 0, 1⟩ 2 payload [.i32 2] :=
    ⟨by decide, rfl, rfl, ⟨rfl, by decide⟩, rfl⟩
  have h := bytes_read_back storingFloat {}
  obtain ⟨memory, m₁, h₁, hover, hgone⟩ := (h.2.1 _ _ _ _ _ _ _ hstore).1 (by decide)
  have hmemory : m₁.memory? = some memory := by
    unfold memory?
    rw [hgone.memories]
    rfl
  have hload : AboutToLoad storingFloat m₁ (.whole .f64) ⟨3, 1⟩ memory 2 [] := by
    refine ⟨?_, ?_, hmemory, hgone.values, ?_⟩
    · rw [hgone.frames]
      exact hstore.frames
    · rw [hgone.position]
      rfl
    · unfold OperandStack.available
      rw [m₁.stack.size_eq, hgone.values, hgone.floor]
      decide
  have hsize : (2 : BitVec 32).toNat + (1 : UInt32).toNat + 8 ≤ memory.size := by
    rw [hover.size]
    decide
  obtain ⟨-, -, m₂, h₂, -⟩ := (h.1 _ _ _ _ _ _ hload).1 hsize
  obtain ⟨_, v, -, -, hgone₂, -, hback⟩ :=
    h.2.2 _ _ _ _ _ _ _ hstore m₁ h₁ _ m₁ _ _ _ _ _ hload rfl {} m₂ h₂
  refine ⟨hstore, m₁, m₂, h₁, h₂, ?_⟩
  rw [hgone₂.values, (hback .f64 .f64 rfl rfl rfl rfl).2 rfl]

end Machine

end WasmDebugger
