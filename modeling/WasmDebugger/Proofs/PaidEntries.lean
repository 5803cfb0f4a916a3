import WasmDebugger.Proofs.Brackets
import WasmDebugger.Proofs.StickyLoops

/-!
# What entries cost

Whatever is read of a module or of a section for names is made of items, and every item has a byte
of its own to pay for it. Where an entry fails, the items that were being read stay without having
been paid: one for each of the loops that are under way.

* `Draft.items`, `DebugNames.items`: what has been gathered.
* `Pass.Follows.vector`: a list of items that hold no others, with one unpaid at most.
* `Pass.charged_instr`, `Pass.charged_funcType`, `Pass.charged_elementSegment`,
  `Pass.charged_functionBodies`: entries that hold items, with two or three unpaid.
-/

namespace WasmDebugger

/-! ## Items -/

/-- An instruction and its branch targets. -/
def Instr.items : Instr → Nat
  | .brTable depths => 1 + depths.length
  | _ => 1

/-- A signature, its parameters and its results. -/
def FuncType.items (t : FuncType) : Nat := 1 + t.params.length + t.results.length

def Body.items (b : Body) : Nat := (b.code.map Instr.items).sum

/-- A segment and the functions in it. -/
def ElementSegment.items (s : ElementSegment) : Nat := 1 + s.functions.length

/-- A segment and the bytes in it. -/
def DataSegment.items (s : DataSegment) : Nat := 1 + s.bytes.length

/-- All that a draft holds. Imports are among the functions, tables, memories and globals. -/
def Draft.items (d : Draft) : Nat :=
  (d.types.toList.map FuncType.items).sum + d.imported.size + d.declared.length +
    (d.bodies.map Body.items).sum + d.tables.size + d.memories.size + d.globals.size +
    d.exports.length + (d.elements.map ElementSegment.items).sum +
    (d.data.map DataSegment.items).sum + d.customSections.length

/-- All names that have been recorded. -/
def DebugNames.items (n : DebugNames) : Nat :=
  n.module.toList.length + n.functions.length + n.locals.length

/-- Targets of blocks are filled in without a change of the items. -/
theorem Instr.items_bare (i : Instr) : i.bare.items = i.items := by cases i <;> rfl

theorem sum_items_of_resolve {code resolved : List Instr}
    (h : Nesting.resolve code = .ok resolved) :
    (resolved.map Instr.items).sum = (code.map Instr.items).sum := by
  have hitems : ∀ l : List Instr, l.map Instr.items = (l.map Instr.bare).map Instr.items := by
    intro l
    rw [List.map_map]
    exact List.map_congr_left fun i _ => i.items_bare.symm
  rw [hitems, hitems code, Nesting.map_bare_of_resolve h]

namespace Decoder

variable {α β : Type} {d : Decoder α} {n : Nat}

theorem Local.map (h : Local n d) (f : α → β) : Local n (f <$> d) := by
  rw [← bind_pure_comp]
  exact h.first fun _ => local_pure

theorem require_bind (condition : Bool) (cause : LoadCause) (d : Decoder α) :
    (require condition cause >>= fun _ => d) = if condition then d else fail cause := by
  cases condition <;> rfl

theorem map_fail (f : α → β) (cause : LoadCause) :
    (f <$> fail cause : Decoder β) = fail cause := rfl

end Decoder

namespace Pass

variable {α β : Type} {p : Pass α} {d : Decoder α}

/-! ## Entries that cost nothing but their place -/

theorem follows_name : Follows name Decoder.name :=
  follows_count.bind fun size => (follows_bytes size).bind fun _ => follows_pure _

theorem Follows.map (h : Follows p d) (e : α → β) : Follows (e <$> p) (e <$> d) :=
  Charged.map h (fun _ => Int.le_refl 0) fun _ => Int.le_refl 0

/-- An item is worth a byte. It stays when it fails, and is not paid for then. -/
theorem Follows.item {p : Pass (Option α)} (h : Follows p (some <$> d))
    (hd : Decoder.Local 1 d) : Charged p (some <$> d) 0 0
      (fun o => total (fun _ => 1) o.toList) fun o => total (fun _ => 1) o.toList - (1 : Nat) :=
  (h.earns (hd.map some) (Int.le_refl 0)).adapt 0 0 (Int.le_refl 0) (Int.le_refl 0) (Int.le_refl 0)
    (fun o => by cases o <;> simp) fun o => by cases o <;> simp

/-- Items that hold no others. -/
theorem Follows.vector {p : Pass (Option α)} (h : Follows p (some <$> d))
    (hd : Decoder.Local 1 d) : Charged (vector p) (Decoder.vector d) 0 (-1)
      (fun l => l.length) fun l => l.length - 1 :=
  (h.item hd).vector.adapt 0 0 (Int.le_refl 0) (by decide) (by decide) (by simp) (by simp)

/-! ### Instructions -/

theorem follows_valueType : Follows valueType Decoder.valueType := by
  refine follows_byte.bind fun b => ?_
  cases ValueType.ofByte? b with
  | some t => exact follows_pure t
  | none => exact follows_giveUp _ _

theorem follows_blockType : Follows blockType Decoder.blockType := by
  refine follows_byte.bind fun b => ?_
  split
  · exact follows_pure _
  · cases ValueType.ofByte? b with
    | some t => exact follows_pure (some t)
    | none => exact follows_giveUp _ _

theorem follows_reservedZero : Follows reservedZero Decoder.reservedZero :=
  follows_byte.bind fun _ => follows_require _ _

theorem follows_constant (t : ValueType) : Follows (constant t) (Decoder.constant t) := by
  cases t with
  | i32 => exact follows_s32.bind fun _ => follows_pure _
  | i64 => exact follows_s64.bind fun _ => follows_pure _
  | f32 | f64 => exact (follows_fixed _).bind fun _ => follows_pure _

theorem follows_memArg : Follows memArg Decoder.memArg :=
  follows_u32.bind fun _ => follows_u32.bind fun _ => follows_pure _

theorem follows_initExpr : Follows initExpr Decoder.initExpr := by
  refine follows_byte.bind fun b => ?_
  have hend : ∀ e : InitExpr, Follows (byte >>= fun last =>
      require (Opcode.ofByte? last = some .blockEnd) .constantEnd >>= fun _ => pure e)
      (Decoder.byte >>= fun last =>
        Decoder.require (Opcode.ofByte? last = some .blockEnd) .constantEnd >>= fun _ => pure e) :=
    fun e => follows_byte.bind fun _ => (follows_require _ _).bind fun _ => follows_pure e
  cases Opcode.ofByte? b with
  | none => exact (follows_giveUp _ _).bind hend
  | some op =>
    cases op with
    | const t => exact (follows_constant t).bind fun v => (follows_pure _).bind hend
    | globalGet => exact follows_u32.bind fun n => (follows_pure _).bind hend
    | _ => exact (follows_giveUp _ _).bind hend

/-! ### Types and imports -/

theorem follows_limits : Follows limits Decoder.limits := by
  refine follows_byte.bind fun flags => ?_
  rw [Decoder.require_bind]
  by_cases hflags : flags ≤ 1
  · simp only [hflags, if_true, decide_true]
    refine follows_u32.bind fun min => ?_
    split
    · exact follows_pure _
    · exact follows_u32.bind fun max => (follows_require _ _).bind fun _ => follows_pure _
  · simp only [hflags, if_false, decide_false, Bool.false_eq_true]
    exact follows_giveUp _ _

theorem follows_memoryLimits : Follows memoryLimits Decoder.memoryLimits :=
  follows_limits.bind fun l => (follows_require _ _).bind fun _ => follows_pure l

theorem follows_tableLimits : Follows tableLimits Decoder.tableLimits :=
  follows_byte.bind fun _ => (follows_require _ _).bind fun _ => follows_limits

theorem follows_mutability : Follows mutability Decoder.mutability :=
  follows_byte.bind fun _ => (follows_require _ _).bind fun _ => follows_pure _

theorem follows_typeIndex (known : Nat) : Follows (typeIndex known) (Decoder.typeIndex known) :=
  follows_u32.bind fun t => (follows_require _ _).bind fun _ => follows_pure t

theorem follows_globalEntry : Follows globalEntry Decoder.globalEntry :=
  follows_valueType.bind fun _ => follows_mutability.bind fun _ =>
    follows_initExpr.bind fun _ => follows_pure _

theorem follows_importEntry (known : Nat) :
    Follows (importEntry known) (some <$> Decoder.importEntry known) := by
  unfold importEntry Decoder.importEntry
  simp only [map_bind]
  refine follows_name.bind fun module => follows_name.bind fun field =>
    follows_byte.bind fun kind => ?_
  by_cases h0 : kind = 0
  · subst h0
    simp only [map_bind, map_pure]
    exact (follows_typeIndex known).bind fun t => follows_pure _
  by_cases h1 : kind = 1
  · subst h1
    simp only [map_bind, map_pure]
    exact follows_tableLimits.bind fun l => follows_pure _
  by_cases h2 : kind = 2
  · subst h2
    simp only [map_bind, map_pure]
    exact follows_memoryLimits.bind fun l => follows_pure _
  by_cases h3 : kind = 3
  · subst h3
    simp only [map_bind, map_pure]
    exact follows_valueType.bind fun t => follows_mutability.bind fun m => follows_pure _
  · simp only
    exact follows_giveUp _ _

theorem follows_exportKind : Follows exportKind (some <$> Decoder.exportKind) := by
  unfold exportKind Decoder.exportKind
  simp only [map_bind]
  refine follows_byte.bind fun kind => ?_
  by_cases h0 : kind = 0
  · subst h0
    exact follows_pure _
  by_cases h1 : kind = 1
  · subst h1
    exact follows_pure _
  by_cases h2 : kind = 2
  · subst h2
    exact follows_pure _
  by_cases h3 : kind = 3
  · subst h3
    exact follows_pure _
  · simp only
    exact follows_giveUp _ _

theorem follows_exportEntry : Follows exportEntry (some <$> Decoder.exportEntry) := by
  have hd : some <$> Decoder.exportEntry = Decoder.name >>= fun name =>
      (some <$> Decoder.exportKind) >>= fun kind? =>
        kind?.elim (pure none) fun kind =>
          Decoder.u32 >>= fun index => pure (some ⟨name, kind, index⟩) := by
    unfold Decoder.exportEntry
    simp only [map_bind, bind_map_left, map_pure, Option.elim_some]
  rw [hd]
  refine follows_name.bind fun name => follows_exportKind.bind fun kind? => ?_
  cases kind? with
  | none => exact follows_pure none
  | some kind => exact follows_u32.bind fun index => follows_pure _

/-- A pass for locals has no more of them than it has room for. -/
theorem follows_localGroups (room groups : Nat) :
    Follows (localGroups room groups) (Decoder.localGroups room groups) := by
  induction groups generalizing room with
  | zero => exact follows_pure []
  | succ groups ih =>
    refine Follows.unlessFailed (follows_u32.bind fun n => ?_) []
    rw [Decoder.require_bind]
    by_cases hn : n.toNat ≤ room
    · simp only [hn, if_true, decide_true]
      exact follows_valueType.bind fun t => (ih _).bind fun rest => follows_pure _
    · simp only [hn, if_false, decide_false, Bool.false_eq_true]
      exact follows_giveUp _ _

theorem follows_entry : Follows entry DebugNames.entry :=
  follows_u32.bind fun _ => follows_name.bind fun _ => follows_pure _

theorem follows_header : Follows header Decoder.header :=
  (follows_bytes 4).bind fun _ => (follows_require _ _).bind fun _ =>
    (follows_fixed 4).bind fun _ => follows_require _ _

/-! ## Entries that hold items -/

/-- The last depth of a table is not asked for, so that there can be two too many. -/
theorem charged_labelTable : Charged labelTable Decoder.labelTable 0 (-1)
    (fun l => l.length) fun l => l.length - 2 := by
  refine ((follows_u32.map some).vector Decoder.local_u32).bind fun depths =>
    follows_u32.first Decoder.local_u32 (by omega) fun otherwise => charged_pure ?_ ?_
  · simp
  · simp only [List.length_append, List.length_singleton]
    omega

/-- An operation with immediates that hold no items. -/
theorem Follows.operation {p : Pass α} {e : α → Instr} (h : Follows p d)
    (he : ∀ a, (e a).items = 1) : Charged (p >>= fun a => pure (e a)) (d >>= fun a => pure (e a))
      0 (-1) (fun i => i.items - 1) fun i => i.items - 3 :=
  (h.charged (by decide)).bind fun a => charged_pure (by simp [he]) (by simp [he])

theorem charged_operands (op : Opcode) : Charged (operands op) (Decoder.operands op) 0 (-1)
    (fun i => i.items - 1) fun i => i.items - 3 := by
  cases op with
  | block | loop | ifThen => exact follows_blockType.operation fun _ => rfl
  | brTable =>
    refine charged_labelTable.bind fun depths => charged_pure ?_ ?_ <;>
      simp only [Instr.items] <;> omega
  | callIndirect =>
    exact (follows_u32.charged (by decide)).bind fun n =>
      follows_reservedZero.operation fun _ => rfl
  | br | brIf | call | localGet | localSet | localTee | globalGet | globalSet =>
    exact follows_u32.operation fun _ => rfl
  | load op | store op => exact follows_memArg.operation fun _ => rfl
  | memorySize | memoryGrow => exact follows_reservedZero.operation fun _ => rfl
  | const t => exact (follows_constant t).operation fun _ => rfl
  | unreachable | nop | elseThen | blockEnd | ret | drop | select | numeric op =>
    exact charged_pure (Int.le_refl 0) (show (1 : Int) - 3 ≤ -1 by decide)

theorem charged_instr : Charged instr Decoder.instr 0 0
    (fun i => i.items) fun i => i.items - 3 := by
  refine follows_byte.first Decoder.local_byte (Int.le_refl 0) fun b => ?_
  cases Opcode.ofByte? b with
  | none => exact charged_giveUp (by decide) (by decide)
  | some op =>
    exact (charged_operands op).adapt 1 0 (by decide) (by decide) (by decide)
      (fun _ => by omega) fun _ => by omega

theorem charged_funcType : Charged funcType (some <$> Decoder.funcType) 0 0
    (fun o => total FuncType.items o.toList)
    fun o => total FuncType.items o.toList - (2 : Nat) := by
  unfold Decoder.funcType
  simp only [map_bind, Decoder.require_bind]
  refine follows_byte.first Decoder.local_byte (Int.le_refl 0) fun b => ?_
  by_cases hb : b = Decoder.funcTypeByte
  · have htypes := (follows_valueType.map some).vector Decoder.local_valueType
    simp only [hb, if_true, decide_true, map_bind, map_pure]
    refine htypes.after 1 0 (by decide) (by decide) (by decide) fun params =>
      htypes.after (params.length + 1) params.length (by omega) (by omega)
        (by omega) fun results => charged_pure ?_ ?_ <;>
      simp [FuncType.items] <;> omega
  · simp only [hb, if_false, decide_false, Bool.false_eq_true, Decoder.map_fail]
    exact charged_giveUp (by simp) (by simp)

/-- A signature that breaks off behind its first byte is gathered all the same. -/
example : ((vector funcType).run? [0x01, 0x60]).map (fun r => (r.1, r.2.reader.error)) =
    some ([⟨[], []⟩], some ⟨.endOfData, 2⟩) := by
  decide +kernel

theorem charged_elementSegment : Charged elementSegment (some <$> Decoder.elementSegment) 0 0
    (fun o => total ElementSegment.items o.toList)
    fun o => total ElementSegment.items o.toList - (2 : Nat) := by
  unfold Decoder.elementSegment
  simp only [map_bind, Decoder.require_bind]
  refine follows_u32.first Decoder.local_u32 (Int.le_refl 0) fun table => ?_
  by_cases htable : table = 0
  · have hfunctions := (follows_u32.map some).vector Decoder.local_u32
    simp only [htable, if_true, decide_true, map_bind, map_pure]
    refine (follows_initExpr.charged (by decide)).bind fun offset =>
      hfunctions.after 1 0 (by decide) (by decide) (by decide) fun functions =>
        charged_pure ?_ ?_ <;>
      simp [ElementSegment.items] <;> omega
  · simp only [htable, if_false, decide_false, Bool.false_eq_true, Decoder.map_fail]
    exact charged_giveUp (by simp) (by simp)

theorem charged_dataSegment : Charged dataSegment (some <$> Decoder.dataSegment) 0 0
    (fun o => total DataSegment.items o.toList)
    fun o => total DataSegment.items o.toList - (2 : Nat) := by
  unfold Decoder.dataSegment
  simp only [map_bind, Decoder.require_bind]
  refine follows_u32.first Decoder.local_u32 (Int.le_refl 0) fun memory => ?_
  by_cases hmemory : memory = 0
  · simp only [hmemory, if_true, decide_true, map_bind, map_pure]
    refine (follows_initExpr.charged (by decide)).bind fun offset =>
      (follows_count.charged (by decide)).bind fun size =>
        (charged_bytes size).after 1 0 (by decide) (by decide) (by decide) fun content =>
          charged_pure ?_ ?_ <;>
      simp [DataSegment.items] <;> omega
  · simp only [hmemory, if_false, decide_false, Bool.false_eq_true, Decoder.map_fail]
    exact charged_giveUp (by simp) (by simp)

/-! ## Function bodies -/

theorem charged_pushInstr (code : List Instr) : Charged (pushInstr code)
    (Decoder.push Decoder.instr code) (total Instr.items code) (total Instr.items code)
    (total Instr.items) fun code => total Instr.items code - 3 := by
  refine charged_instr.after (total Instr.items code) (total Instr.items code) (Int.le_refl _)
    (by omega) (by omega) fun i => charged_pure ?_ ?_ <;>
    simp only [total_append, total_cons, total_nil] <;> omega

theorem local_push (code : List Instr) : Decoder.Local 1 (Decoder.push Decoder.instr code) :=
  Decoder.local_instr.first fun _ => Decoder.local_pure

theorem charged_code : Charged (toLimit pushInstr []) (Decoder.untilEnd Decoder.instr) 0 (-3)
    (total Instr.items) fun code => total Instr.items code - 3 := by
  have hd : (fun c => Decoder.rounds (Decoder.push Decoder.instr) [] c.rest.length c) =
      Decoder.untilEnd Decoder.instr := by
    funext c
    rw [Decoder.rounds_push]
    simp [Decoder.untilEnd]
  have h := Charged.toLimit charged_pushInstr local_push []
  rwa [hd] at h

theorem charged_body : Charged body Decoder.body 0 (-3)
    (fun b => b.items) fun b => b.items - 3 := by
  refine (follows_count.charged (by decide)).bind fun groups =>
    ((follows_localGroups maxLocals groups).charged (by decide)).bind fun locals =>
      charged_code.bind fun code => ((follows_require _ _).charged (by omega)).bind fun _ => ?_
  refine Charged.unlessFailed (f := total Instr.items code - 3) ?_ (by simp [Body.items, total])
  cases hresolve : Nesting.resolve code with
  | ok resolved =>
    have hitems := sum_items_of_resolve hresolve
    refine charged_pure ?_ ?_ <;> simp only [Body.items, total, hitems] <;> omega
  | error e =>
    refine charged_giveUp ?_ ?_ <;> simp only [Body.items, total] <;> omega

theorem charged_sizedBody : Charged sizedBody (some <$> Decoder.sizedBody) 0 0
    (fun o => total Body.items o.toList) fun o => total Body.items o.toList - (3 : Nat) := by
  unfold Decoder.sizedBody
  rw [map_bind]
  refine (follows_u32.charged (Int.le_refl 0)).bind fun size =>
    charged_body.within ?_ ?_ ?_ (by simp) (by simp) <;> simp

theorem charged_functionBodies (declared : Nat) : Charged (functionBodies declared)
    (Decoder.functionBodies declared) 0 (-3) (total Body.items)
    fun l => total Body.items l - (3 : Nat) :=
  (follows_count.charged (by decide)).bind fun n =>
    ((follows_require _ _).charged (by decide)).bind fun _ => charged_sizedBody.times n

end Pass

end WasmDebugger
