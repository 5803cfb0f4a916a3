import Mathlib.Data.List.Chain
import WasmDebugger.Proofs.Encoding
import WasmDebugger.Proofs.WellFormed

/-!
# What was written is read back

One lemma for each part of the format: its decoder, on the bytes that `Encode` writes for a value,
gives the value and takes these bytes and no more.

* Integers: `reads_unsignedGroups` and `reads_signedGroups` for every number of groups.
* **`reads_instr`**: every instruction with its immediates, its targets left out.
* **`fills_body`**: a well-formed body, its targets found again.
-/

namespace WasmDebugger

/-! ## Text -/

/-- All characters stand for octets. -/
def Octets.IsText (text : String) : Prop := ∀ c ∈ text.toList, c.toNat < 256

instance (text : String) : Decidable (Octets.IsText text) :=
  List.decidableBAll (fun c : Char => c.toNat < 256) text.toList

theorem Octets.ofBytes_toBytes {text : String} (h : Octets.IsText text) :
    Octets.ofBytes (Octets.toBytes text) = text := by
  unfold Octets.ofBytes Octets.toBytes
  rw [List.map_map, ← String.ofList_toList (s := text)]
  refine congrArg String.ofList ?_
  rw [String.toList_ofList]
  refine (List.map_congr_left fun c hc => ?_).trans (List.map_id _)
  have hc : c.toNat < 256 := h c hc
  simp [Nat.mod_eq_of_lt hc]

/-! ## Operations

The table of operations has every operation once and its bytes in order, so that it can be read in
both directions. -/

theorem Width.mem_all (w : Width) : w ∈ Width.all := by cases w <;> decide

theorem ValueType.mem_all (t : ValueType) : t ∈ ValueType.all := by cases t <;> decide

theorem Narrow.mem_all (part : Narrow) : part ∈ Narrow.all := by cases part <;> decide

theorem IntRelation.mem_all (r : IntRelation) : r ∈ IntRelation.all := by cases r <;> decide

theorem IntUnary.mem_all (op : IntUnary) : op ∈ IntUnary.all := by cases op <;> decide

theorem IntBinary.mem_all (op : IntBinary) : op ∈ IntBinary.all := by cases op <;> decide

theorem FloatRelation.mem_all (r : FloatRelation) : r ∈ FloatRelation.all := by cases r <;> decide

theorem FloatUnary.mem_all (op : FloatUnary) : op ∈ FloatUnary.all := by cases op <;> decide

theorem FloatBinary.mem_all (op : FloatBinary) : op ∈ FloatBinary.all := by cases op <;> decide

theorem NumericOp.mem_all (op : NumericOp) : op ∈ NumericOp.all := by
  cases op with
  | truncate t w s | convert t w s =>
    cases t <;> cases s <;> simp [NumericOp.all, Width.mem_all]
  | _ =>
    simp [NumericOp.all, Width.mem_all, IntRelation.mem_all, FloatRelation.mem_all,
      IntUnary.mem_all, IntBinary.mem_all, FloatUnary.mem_all, FloatBinary.mem_all, Narrow.mem_all]

theorem LoadOp.mem_all (op : LoadOp) : op ∈ LoadOp.all := by
  cases op with
  | whole t => simp [LoadOp.all, ValueType.mem_all]
  | narrow part s => cases s <;> simp [LoadOp.all, Narrow.mem_all]

theorem StoreOp.mem_all (op : StoreOp) : op ∈ StoreOp.all := by
  cases op <;> simp [StoreOp.all, ValueType.mem_all, Narrow.mem_all]

namespace Opcode

theorem mem_table (op : Opcode) : ∃ byte, (byte, op) ∈ table := by
  have hops : table.map Prod.snd = runs.flatMap Prod.snd := by decide +kernel
  have hmem : op ∈ table.map Prod.snd := by
    rw [hops]
    cases op <;> simp [runs, LoadOp.mem_all, StoreOp.mem_all, ValueType.mem_all, NumericOp.mem_all]
  obtain ⟨⟨byte, _⟩, he, rfl⟩ := List.mem_map.mp hmem
  exact ⟨byte, he⟩

/-- The bytes of the table go up. -/
theorem nodup_bytes_table : (table.map Prod.fst).Nodup := by
  have hchain : (table.map (·.1.toNat)).IsChain (· < ·) := by decide +kernel
  have hpairs := List.pairwise_map.mp (List.isChain_iff_pairwise.mp hchain)
  refine List.pairwise_map.mpr (hpairs.imp fun hlt he => ?_)
  rw [he] at hlt
  exact Nat.lt_irrefl _ hlt

/-- In a list without double keys a lookup finds what is there. -/
theorem lookup_of_mem {α β : Type} [DecidableEq α] {l : List (α × β)} {k : α} {v : β}
    (hn : (l.map Prod.fst).Nodup) (h : (k, v) ∈ l) : l.lookup k = some v := by
  induction l with
  | nil => exact absurd h List.not_mem_nil
  | cons e l ih =>
    rw [List.map_cons, List.nodup_cons] at hn
    rcases List.mem_cons.mp h with rfl | h
    · simp
    · have hne : k ≠ e.1 := fun he => hn.1 (he ▸ List.mem_map_of_mem h)
      rw [List.lookup_cons, beq_eq_false_iff_ne.mpr hne]
      exact ih hn.2 h

/-- **The byte of an operation is that of no other.** -/
theorem ofByte?_byte (op : Opcode) : ofByte? op.byte = some op := by
  refine lookup_of_mem nodup_bytes_table ?_
  obtain ⟨byte, hmem⟩ := mem_table op
  unfold Opcode.byte
  cases hf : table.find? fun entry => entry.2 = op with
  | none => exact absurd (List.find?_eq_none.mp hf _ hmem) (by simp)
  | some entry =>
    have hop : entry.2 = op := by simpa using List.find?_some hf
    rw [← hop]
    exact List.mem_of_find?_eq_some hf

/-- The first and the last byte of each family of the format. -/
example : [Opcode.unreachable, .elseThen, .blockEnd, .callIndirect, .drop, .select, .localGet,
      .globalSet, .load (.whole .i32), .load (.narrow .i64As32 false), .store (.whole .i32),
      .store (.narrow .i64As32), .memorySize, .memoryGrow, .const .i32, .const .f64,
      .numeric (.eqz .w32), .numeric (.intCompare .w64 .geU), .numeric (.floatCompare .w32 .eq),
      .numeric (.floatCompare .w64 .ge), .numeric (.intUnary .w32 .clz),
      .numeric (.intBinary .w64 .rotr), .numeric (.floatUnary .w32 .abs),
      .numeric (.floatBinary .w64 .copysign), .numeric .wrap, .numeric .promote,
      .numeric (.reinterpretFloat .w32), .numeric (.reinterpretInt .w64),
      .numeric (.extendLow .i32As8), .numeric (.extendLow .i64As32)].map Opcode.byte =
    [0x00, 0x05, 0x0B, 0x11, 0x1A, 0x1B, 0x20, 0x24, 0x28, 0x35, 0x36, 0x3E, 0x3F, 0x40, 0x41, 0x44,
      0x45, 0x5A, 0x5B, 0x66, 0x67, 0x8A, 0x8B, 0xA6, 0xA7, 0xBB, 0xBC, 0xBF, 0xC0, 0xC4] := by
  decide +kernel

end Opcode

/-- Targets are not written. -/
theorem Encode.instr_bare (i : Instr) : Encode.instr i.bare = Encode.instr i := by
  cases i <;> rfl

namespace Decoder

variable {α : Type}

/-! ## Integers -/

theorem toNat_toUInt8 {n : Nat} (h : n < 256) : n.toUInt8.toNat = n := by
  simp [Nat.mod_eq_of_lt h]

theorem reads_unsignedGroups {more n : Nat} (h : n < 16 * 128 ^ more) :
    Reads (unsignedGroups more) (Encode.unsigned n) n := by
  induction more generalizing n with
  | zero =>
    have hn : n < 16 := by simpa using h
    rw [Encode.unsigned, if_pos (by omega)]
    refine Reads.byte_bind ?_
    rw [toNat_toUInt8 (by omega), if_pos hn]
    exact reads_pure
  | succ more ih =>
    rw [Encode.unsigned]
    split
    · refine Reads.byte_bind ?_
      rw [toNat_toUInt8 (by omega), if_pos ‹_›]
      exact reads_pure
    · refine Reads.byte_bind ?_
      rw [toNat_toUInt8 (by omega), if_neg (by omega)]
      have hhigh := (ih (n := n / 128) (by rw [Nat.pow_succ] at h; omega)).map
        (g := fun high => n % 128 + 128 - 128 + 128 * high)
      rwa [show n % 128 + 128 - 128 + 128 * (n / 128) = n by omega] at hhigh

theorem reads_unsigned {n : Nat} (h : n < sizeLimit) : Reads u32 (Encode.unsigned n) n.toUInt32 :=
  (reads_unsignedGroups (show n < 16 * 128 ^ 4 from h)).map

theorem reads_u32 (n : UInt32) : Reads u32 (Encode.u32 n) n := by
  have hread := reads_unsigned (n := n.toNat) n.toNat_lt
  rwa [show n.toNat.toUInt32 = n by simp] at hread

theorem toNat_toUInt32 {n : Nat} (h : n < sizeLimit) : n.toUInt32.toNat = n := by
  simp [Nat.mod_eq_of_lt (show n < 4294967296 from h)]

/-- A group holds the lowest seven bits, the topmost of which is read as the sign. -/
theorem signedGroup_of_small {i : Int} (h : -64 ≤ i) (h' : i < 64) :
    signedGroup (i % 128).toNat.toUInt8 = i := by
  unfold signedGroup
  rw [toNat_toUInt8 (by omega)]
  split <;> omega

theorem reads_signedGroups {lastBits more : Nat} (hbits : lastBits ≤ 7) {i : Int}
    (hlow : -(2 ^ (lastBits - 1) * 128 ^ more : Nat) ≤ i)
    (hhigh : i < (2 ^ (lastBits - 1) * 128 ^ more : Nat)) :
    Reads (signedGroups lastBits more) (Encode.signed i) i := by
  have hhalf : 2 ^ (lastBits - 1) ≤ 64 :=
    Nat.pow_le_pow_right (n := 2) (by decide) (by omega : lastBits - 1 ≤ 6)
  obtain ⟨half, hpow⟩ : ∃ half, Nat.pow 2 (lastBits - 1) = half := ⟨_, rfl⟩
  rw [show 2 ^ (lastBits - 1) = half from hpow] at hlow hhigh hhalf
  induction more generalizing i with
  | zero =>
    simp only [Nat.pow_zero, Nat.mul_one] at hlow hhigh
    rw [Encode.signed, if_pos (by omega)]
    refine Reads.byte_bind ?_
    rw [toNat_toUInt8 (by omega), signedGroup_of_small (by omega) (by omega), if_pos]
    · exact reads_pure
    · rw [hpow]
      simp only [Bool.or_eq_true, Bool.and_eq_true, decide_eq_true_eq]
      omega
  | succ more ih =>
    rw [Nat.pow_succ, ← Nat.mul_assoc] at hlow hhigh
    generalize half * 128 ^ more = bound at hlow hhigh ih
    rw [Encode.signed]
    split
    · refine Reads.byte_bind ?_
      rw [toNat_toUInt8 (by omega), if_pos (by omega), signedGroup_of_small (by omega) (by omega)]
      exact reads_pure
    · refine Reads.byte_bind ?_
      rw [toNat_toUInt8 (by omega), if_neg (by omega)]
      have hrest := (ih (i := i / 128) (by omega) (by omega)).map
        (g := fun high => (((i % 128).toNat + 128 : Nat) : Int) - 128 + 128 * high)
      rwa [show (((i % 128).toNat + 128 : Nat) : Int) - 128 + 128 * (i / 128) = i by omega] at hrest

theorem reads_fixed {size n : Nat} (h : n < 256 ^ size) :
    Reads (fixed size) (Encode.fixed size n) n := by
  induction size generalizing n with
  | zero =>
    have hn : n = 0 := by simpa using h
    subst hn
    exact reads_pure
  | succ size ih =>
    refine Reads.byte_bind ?_
    have hrest := (ih (n := n / 256) (by rw [Nat.pow_succ] at h; omega)).map
      (g := fun high => n % 256 + 256 * high)
    rw [toNat_toUInt8 (by omega)]
    rwa [show n % 256 + 256 * (n / 256) = n by omega] at hrest

/-! ## Vectors and names -/

theorem unsigned_ne_nil (n : Nat) : Encode.unsigned n ≠ [] := by
  rw [Encode.unsigned]
  split <;> simp

/-- A count is accepted as long as there are so many bytes behind it. -/
theorem Reads.counted {f : Nat → Decoder α} {n : Nat} {bytes : List UInt8} {a : α}
    (h : Reads (f n) bytes a) (hn : n ≤ bytes.length) :
    Reads (count >>= f) (Encode.unsigned n ++ bytes) a := by
  intro hsize offset rest
  rw [List.length_append] at hsize ⊢
  have hlt : n < sizeLimit := by omega
  have hcount : count ⟨offset, Encode.unsigned n ++ (bytes ++ rest)⟩ =
      .ok (n, ⟨offset + (Encode.unsigned n).length, bytes ++ rest⟩) := by
    unfold count
    rw [bind_ok (reads_unsigned hlt (by omega) offset (bytes ++ rest)), toNat_toUInt32 hlt,
      if_neg (by rw [List.length_append]; omega)]
  rw [List.append_assoc, bind_ok hcount, h (by omega), Nat.add_assoc]

theorem reads_vector {item : Decoder α} {enc : α → List UInt8} {items : List α}
    (h : ∀ a ∈ items, Reads item (enc a) a) (hne : ∀ a ∈ items, enc a ≠ []) :
    Reads (vector item) (Encode.vector enc items) items :=
  (reads_times h).counted (length_le_flatMap hne)

theorem reads_name {text : String} (h : Octets.IsText text) :
    Reads name (Encode.name text) text := by
  have hbytes := (reads_bytes (Octets.toBytes text)).map (g := Octets.ofBytes)
  rw [Octets.ofBytes_toBytes h] at hbytes
  exact hbytes.counted (f := fun size => bytes size >>= fun text => pure (Octets.ofBytes text))
    (Nat.le_refl _)

/-- A window of its own behind its size. -/
theorem Fills.sized {d : Decoder α} {content : List UInt8} {a : α} (h : Fills d content a)
    (mismatch : LoadCause) :
    Reads (u32 >>= fun size => Decoder.within size.toNat mismatch d) (Encode.sized content) a := by
  intro hsize
  have hlt : content.length < sizeLimit := by
    rw [Encode.sized, List.length_append] at hsize
    omega
  refine (reads_unsigned hlt).bind (f := fun size => Decoder.within size.toNat mismatch d) ?_ hsize
  rw [toNat_toUInt32 hlt]
  exact h.within mismatch

/-! ## Instructions -/

theorem reads_valueType (t : ValueType) : Reads valueType [Encode.valueType t] t := by
  cases t <;> exact fun _ _ _ => rfl

theorem reads_blockType (r : Option ValueType) : Reads blockType [Encode.blockType r] r := by
  rcases r with _ | t
  · exact fun _ _ _ => rfl
  · cases t <;> exact fun _ _ _ => rfl

theorem reads_reservedZero : Reads reservedZero [0] () := fun _ _ _ => rfl

theorem reads_constant (v : Value) : Reads (constant v.type) (Encode.constant v) v := by
  cases v with
  | i32 b =>
    have hint : Reads s32 (Encode.signed b.toInt) b.toInt :=
      reads_signedGroups (by decide) b.le_toInt b.toInt_lt
    have hval := hint.map (g := fun n => Value.i32 (BitVec.ofInt 32 n))
    rwa [BitVec.ofInt_toInt] at hval
  | i64 b =>
    have hint : Reads s64 (Encode.signed b.toInt) b.toInt :=
      reads_signedGroups (by decide) b.le_toInt b.toInt_lt
    have hval := hint.map (g := fun n => Value.i64 (BitVec.ofInt 64 n))
    rwa [BitVec.ofInt_toInt] at hval
  | f32 b =>
    have hnat : Reads (fixed 4) (Encode.fixed 4 b.toNat) b.toNat := reads_fixed b.isLt
    have hval := hnat.map (g := fun n => Value.f32 (BitVec.ofNat 32 n))
    rwa [BitVec.ofNat_toNat, BitVec.setWidth_eq] at hval
  | f64 b =>
    have hnat : Reads (fixed 8) (Encode.fixed 8 b.toNat) b.toNat := reads_fixed b.isLt
    have hval := hnat.map (g := fun n => Value.f64 (BitVec.ofNat 64 n))
    rwa [BitVec.ofNat_toNat, BitVec.setWidth_eq] at hval

theorem reads_memArg (arg : MemArg) :
    Reads memArg (Encode.u32 arg.align ++ Encode.u32 arg.offset) arg :=
  (reads_u32 arg.align).bind (reads_u32 arg.offset).map

theorem reads_labelTable {depths : List UInt32} (h : depths ≠ []) :
    Reads labelTable (Encode.labelTable depths) depths := by
  have hvector : Reads (vector u32) (Encode.vector Encode.u32 depths.dropLast) depths.dropLast :=
    reads_vector (fun n _ => reads_u32 n) fun n _ => unsigned_ne_nil _
  have htable := hvector.bind (f := fun depths => u32 >>= fun last => pure (depths ++ [last]))
    (reads_u32 (depths.getLastD 0)).map
  have hlast : depths.dropLast ++ [depths.getLastD 0] = depths := by
    rw [List.getLastD_eq_getLast?, List.getLast?_eq_some_getLast h]
    exact List.dropLast_concat_getLast h
  rw [hlast] at htable
  exact htable

/-- **The immediates of an instruction are read back**, but for the targets. -/
theorem reads_operands {i : Instr} (h : i.Complete) :
    Reads (operands i.opcode) (Encode.immediates i) i.bare := by
  cases i with
  | block r _ => exact (reads_blockType r).map
  | loop r _ => exact (reads_blockType r).map
  | ifThen r _ _ => exact (reads_blockType r).map
  | br n | brIf n | call n => exact (reads_u32 n).map
  | localGet n | localSet n | localTee n | globalGet n | globalSet n => exact (reads_u32 n).map
  | brTable depths => exact (reads_labelTable (h.depths depths rfl)).map
  | callIndirect t => exact (reads_u32 t).bind reads_reservedZero.map
  | load op arg => exact (reads_memArg arg).map
  | store op arg => exact (reads_memArg arg).map
  | memorySize | memoryGrow => exact reads_reservedZero.map
  | const v => exact (reads_constant v).map
  | _ => exact reads_pure

/-- **An instruction is read back**, but for its targets. -/
theorem reads_instr {i : Instr} (h : i.Complete) : Reads instr (Encode.instr i) i.bare := by
  refine Reads.byte_bind ?_
  rw [Opcode.ofByte?_byte]
  exact reads_operands h

theorem reads_initExpr (e : InitExpr) : Reads initExpr (Encode.initExpr e) e := by
  have hend : Reads (byte >>= fun last =>
      require (Opcode.ofByte? last = some .blockEnd) .constantEnd >>= fun _ => pure e)
      (Encode.instr .blockEnd) e := by
    refine Reads.byte_bind (Reads.require_bind ?_ reads_pure)
    rw [Opcode.ofByte?_byte]
    rfl
  cases e with
  | const v =>
    refine Reads.byte_bind ?_
    rw [Opcode.ofByte?_byte]
    exact (reads_constant v).bind (reads_pure.bind hend)
  | globalGet n =>
    refine Reads.byte_bind ?_
    rw [Opcode.ofByte?_byte]
    exact (reads_u32 n).bind (reads_pure.bind hend)

/-! ## Entries of sections -/

theorem reads_funcType (t : FuncType) : Reads funcType (Encode.funcType t) t := by
  have htypes : ∀ types : List ValueType,
      Reads (vector valueType) (Encode.vector ([Encode.valueType ·]) types) types :=
    fun types => reads_vector (fun t _ => reads_valueType t) (by simp)
  exact Reads.byte_bind (Reads.require_bind rfl ((htypes t.params).bind (htypes t.results).map))

theorem reads_limits {l : Limits} (h : l.Ordered) : Reads limits (Encode.limits l) l := by
  obtain ⟨min, _ | max⟩ := l
  · exact Reads.byte_bind (Reads.require_bind rfl (reads_u32 min).map)
  · have hle : min ≤ max := h max rfl
    exact Reads.byte_bind (Reads.require_bind rfl ((reads_u32 min).bind
      ((reads_u32 max).checked (by simpa using hle))))

theorem reads_memoryLimits {l : Limits} (h : l.Ordered) (ha : l.Addressable) :
    Reads memoryLimits (Encode.limits l) l := by
  refine (reads_limits h).checked (g := fun l => l) ?_
  rw [Bool.and_eq_true, decide_eq_true_eq, Option.all_eq_true]
  exact ⟨ha.1, fun max hmax => by simpa using ha.2 max hmax⟩

theorem reads_tableLimits {l : Limits} (h : l.Ordered) :
    Reads tableLimits (Encode.tableLimits l) l :=
  Reads.byte_bind (Reads.require_bind rfl (reads_limits h))

theorem reads_mutability (isMutable : Bool) :
    Reads mutability [if isMutable then 1 else 0] isMutable := by
  cases isMutable <;> exact fun _ _ _ => rfl

theorem reads_typeIndex {known : Nat} {t : UInt32} (h : t.toNat < known) :
    Reads (typeIndex known) (Encode.u32 t) t :=
  (reads_u32 t).checked (g := fun t => t) (by simpa using h)

/-- The two-level name is text. -/
def Import.Named (i : Import) : Prop :=
  ∃ n, i.name? = some n ∧ Octets.IsText n.module ∧ Octets.IsText n.field

theorem reads_importEntry {known : Nat} {i : Import} (hc : i.Checked known) (hn : i.Named) :
    Reads (importEntry known) (Encode.importEntry i) i := by
  obtain ⟨⟨module, field⟩, hname, hm, hf⟩ := hn
  unfold Encode.importEntry
  rw [hname, Option.elim_some, Encode.importName, List.append_assoc]
  refine (reads_name hm).bind ((reads_name hf).bind ?_)
  cases i with
  | function f =>
    cases f with
    | imported t n =>
      cases hname
      exact Reads.byte_bind (reads_typeIndex hc.2).map
    | defined t locals code => exact absurd hname (by simp [Import.name?, Function.name?])
  | table t =>
    obtain ⟨l, source⟩ := t
    cases hname
    exact Reads.byte_bind (reads_tableLimits hc).map
  | memory s =>
    obtain ⟨l, source⟩ := s
    cases hname
    exact Reads.byte_bind (reads_memoryLimits hc.1 hc.2).map
  | global g =>
    obtain ⟨t, isMutable, source⟩ := g
    cases source with
    | imported n =>
      cases hname
      exact Reads.byte_bind ((reads_valueType t).bind (reads_mutability isMutable).map)
    | init e => exact absurd hname (by simp [Import.name?, Global.name?])

theorem reads_exportKind (kind : ExternalKind) :
    Reads exportKind [Encode.exportKind kind] kind := by
  cases kind <;> exact fun _ _ _ => rfl

theorem reads_exportEntry {e : Export} (h : Octets.IsText e.name) :
    Reads exportEntry (Encode.exportEntry e) e :=
  (reads_name h).bind ((reads_exportKind e.kind).bind (reads_u32 e.index).map)

theorem reads_globalEntry {g : Global} (h : g.isImported = false) :
    Reads globalEntry (Encode.globalEntry g) g := by
  obtain ⟨t, isMutable, source⟩ := g
  cases source with
  | imported n => exact absurd h (by simp [Global.isImported, Global.name?])
  | init e => exact (reads_valueType t).bind ((reads_mutability isMutable).bind (reads_initExpr e).map)

theorem reads_elementSegment {s : ElementSegment} (h : s.table = 0) :
    Reads elementSegment (Encode.elementSegment s) s := by
  have hfunctions : Reads (vector u32) (Encode.vector Encode.u32 s.functions) s.functions :=
    reads_vector (fun n _ => reads_u32 n) fun n _ => unsigned_ne_nil _
  rw [Encode.elementSegment, List.append_assoc]
  exact (reads_u32 s.table).bind (Reads.require_bind (by simpa using h)
    ((reads_initExpr s.offset).bind hfunctions.map))

theorem reads_dataSegment {s : DataSegment} (h : s.memory = 0) :
    Reads dataSegment (Encode.dataSegment s) s := by
  have hcontent : Reads (count >>= fun size => bytes size >>= fun content =>
      pure (DataSegment.mk s.memory s.offset content)) (Encode.sized s.bytes) s :=
    (reads_bytes s.bytes).map.counted (Nat.le_refl _)
  rw [Encode.dataSegment, List.append_assoc]
  exact (reads_u32 s.memory).bind (Reads.require_bind (by simpa using h)
    ((reads_initExpr s.offset).bind hcontent))

theorem fills_custom {c : CustomSection} (h : Octets.IsText c.name) :
    Fills custom (Encode.custom c) c :=
  (reads_name h).fills_bind (fills_remainder c.payload).map

/-! ## Bodies -/

/-- The locals that groups stand for. -/
def ungroup (groups : List (ValueType × Nat)) : List ValueType :=
  groups.flatMap fun g => List.replicate g.2 g.1

theorem ungroup_runLengths (locals : List ValueType) : ungroup (runLengths locals) = locals := by
  induction locals with
  | nil => rfl
  | cons t rest ih =>
    rw [runLengths]
    split
    · rename_i u n more hrest
      rw [hrest] at ih
      split
      · rename_i heq
        subst heq
        rw [← ih]
        rfl
      · rw [← ih]
        rfl
    · rename_i hrest
      rw [hrest] at ih
      rw [← ih]
      rfl

theorem reads_localGroups {room : Nat} {groups : List (ValueType × Nat)}
    (h : (ungroup groups).length ≤ room) (hroom : room < sizeLimit) :
    Reads (localGroups room groups.length) (groups.flatMap Encode.localGroup)
      (ungroup groups) := by
  induction groups generalizing room with
  | nil => exact reads_pure
  | cons g groups ih =>
    obtain ⟨t, n⟩ := g
    have hlen : n + (ungroup groups).length ≤ room := by simpa [ungroup] using h
    have hn : n.toUInt32.toNat = n := toNat_toUInt32 (by omega)
    have hrest := (ih (show (ungroup groups).length ≤ room - n by omega) (by omega)).map
      (g := fun rest => List.replicate n t ++ rest)
    have hgroup := (reads_valueType t).bind (f := fun t => localGroups (room - n) groups.length >>=
      fun rest => pure (List.replicate n t ++ rest)) hrest
    rw [List.flatMap_cons, Encode.localGroup, List.append_assoc]
    refine (reads_unsigned (by omega)).bind (Reads.require_bind ?_ ?_)
    · rw [hn]
      exact decide_eq_true (by omega)
    · rw [hn]
      exact hgroup

theorem reads_locals {locals : List ValueType} (h : locals.length ≤ maxLocals) :
    Reads (count >>= fun groups => localGroups maxLocals groups)
      (Encode.vector Encode.localGroup (runLengths locals)) locals := by
  have hroom : (ungroup (runLengths locals)).length ≤ maxLocals := by
    rwa [ungroup_runLengths]
  have hgroups := reads_localGroups hroom (by decide)
  rw [ungroup_runLengths] at hgroups
  exact hgroups.counted (f := localGroups maxLocals)
    (length_le_flatMap fun g _ => by simp [Encode.localGroup])

/-- **A well-formed body is read back**: its targets are found again. -/
theorem fills_body {b : Body} (h : b.WellFormed) : Fills body (Encode.body b) b := by
  have hinstrs : Fills (untilEnd instr) (b.code.flatMap Encode.instr) (b.code.map Instr.bare) := by
    have hcode : b.code.flatMap Encode.instr = (b.code.map Instr.bare).flatMap Encode.instr := by
      simp [List.flatMap_map, Encode.instr_bare]
    rw [hcode]
    refine fills_untilEnd (fun j hj => ?_) (fun j _ => by simp [Encode.instr])
    obtain ⟨i, hi, rfl⟩ := List.mem_map.mp hj
    rw [Encode.instr_bare]
    exact reads_instr (h.complete i hi)
  have hlast : (b.code.map Instr.bare).getLast? = some .blockEnd := by
    obtain ⟨items, -, hcode⟩ := h.bracketed
    simp [hcode, Instr.bare, Instr.withTargets]
  have hresolve := Nesting.resolve_of_resolved h.bracketed h.resolved
  unfold body
  rw [← bind_assoc]
  refine (reads_locals h.locals).fills_bind (hinstrs.bind (Reads.require_bind ?_ ?_))
  · exact decide_eq_true hlast
  · rw [hresolve]
    exact reads_pure

theorem reads_sizedBody {b : Body} (h : b.WellFormed) : Reads sizedBody (Encode.sizedBody b) b :=
  (fills_body h).sized .sectionSize

theorem reads_functionBodies {bodies : List Body} (h : ∀ b ∈ bodies, b.WellFormed) :
    Reads (functionBodies bodies.length) (Encode.vector Encode.sizedBody bodies) bodies := by
  have hbodies : Reads (times sizedBody bodies.length) (bodies.flatMap Encode.sizedBody) bodies :=
    reads_times fun b hb => reads_sizedBody (h b hb)
  refine Reads.counted (f := fun n =>
    require (n = bodies.length) .bodyCount >>= fun _ => times sizedBody n)
    (Reads.require_bind (by simp) hbodies) (length_le_flatMap fun b _ => ?_)
  simp [Encode.sizedBody, Encode.sized, unsigned_ne_nil]

end Decoder

end WasmDebugger
