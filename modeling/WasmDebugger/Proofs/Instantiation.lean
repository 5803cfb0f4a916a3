import WasmDebugger.Proofs.Watchpoints

/-!
# New machines

Instantiation goes through the globals, the memories and the segments one after the other and stops
at the first that does not fit. What it comes to is said here of the module alone.

* `Module.GlobalValue`, `Module.Offset`: the values of globals and of segment offsets.
* `Placement`: what a segment puts where. `Placement.Overlay`: the last one that covers a place
  counts.
* `Medium`: memories and tables as rows of entries. `Medium.Copies.exists_run_iff`,
  `Medium.Copies.overlay_of_run`: copying segments into rows, one after the other.
* `Module.Instantiable`, `Module.Instance`: which modules become machines, and what is in these.
* **`instantiation_computes_overlay`**: an execution is made of a module exactly when that is
  instantiable, and its machine is the instance.
-/

namespace WasmDebugger

theorem InitError.bind_eq_ok_iff {α β : Type} {x : Except InitError α}
    {f : α → Except InitError β} {b : β} : (x >>= f) = .ok b ↔ ∃ a, x = .ok a ∧ f a = .ok b := by
  cases x with
  | error e => exact iff_of_false nofun fun ⟨_, h, _⟩ => nomatch h
  | ok a => exact ⟨fun h => ⟨a, rfl, h⟩, fun ⟨_, h, h'⟩ => by cases h; exact h'⟩

/-! ## Constant expressions -/

namespace Module

/-- The value that a global starts with: that of its initializer, or zero when the host provides
it. An initializer sees the globals before it. -/
inductive GlobalValue (m : Module) : Nat → Value → Prop
  | imported {i : Nat} {g : Global} {name : ImportName} (hg : m.globals[i]? = some g)
    (hs : g.source = .imported name) : GlobalValue m i (.zero g.type)
  | const {i : Nat} {g : Global} {v : Value} (hg : m.globals[i]? = some g)
    (hs : g.source = .init (.const v)) : GlobalValue m i v
  | earlier {i : Nat} {g : Global} {j : UInt32} {v : Value} (hg : m.globals[i]? = some g)
    (hs : g.source = .init (.globalGet j)) (hlt : j.toNat < i)
    (hv : GlobalValue m j.toNat v) : GlobalValue m i v

/-- The value of a constant expression that sees all globals. -/
def ExprValue (m : Module) (e : InitExpr) (v : Value) : Prop :=
  match e with
  | .const c => v = c
  | .globalGet j => m.GlobalValue j.toNat v

/-- The address that a constant expression of 32 bits stands for, which has no sign. -/
def Offset (m : Module) (e : InitExpr) (base : Nat) : Prop :=
  ∃ b : BitVec 32, m.ExprValue e (.i32 b) ∧ b.toNat = base

/-- The initializer is a constant of the global's type or an earlier global of that type. -/
def GlobalFits (m : Module) (i : Nat) (g : Global) : Prop :=
  match g.source with
  | .imported _ => True
  | .init (.const v) => v.type = g.type
  | .init (.globalGet j) => j.toNat < i ∧ ∃ g', m.globals[j.toNat]? = some g' ∧ g'.type = g.type

variable {m : Module} {i : Nat} {v v' : Value} {e : InitExpr} {base base' : Nat}

theorem GlobalValue.lt_size (h : m.GlobalValue i v) : i < m.globals.size := by
  cases h with
  | imported hg _ => exact (Array.getElem?_eq_some_iff.mp hg).1
  | const hg _ => exact (Array.getElem?_eq_some_iff.mp hg).1
  | earlier hg _ _ _ => exact (Array.getElem?_eq_some_iff.mp hg).1

/-- The source of a global says which constructor its value comes from. -/
theorem globalValue_iff {g : Global} (hg : m.globals[i]? = some g) : m.GlobalValue i v ↔
    match g.source with
    | .imported _ => v = .zero g.type
    | .init (.const c) => v = c
    | .init (.globalGet j) => j.toNat < i ∧ m.GlobalValue j.toNat v := by
  constructor
  · intro h
    cases h with
    | imported hg' hs =>
      cases hg.symm.trans hg'
      rw [hs]
    | const hg' hs =>
      cases hg.symm.trans hg'
      rw [hs]
    | earlier hg' hs hlt hv =>
      cases hg.symm.trans hg'
      rw [hs]
      exact ⟨hlt, hv⟩
  · intro h
    split at h
    · subst h
      exact .imported hg ‹_›
    · subst h
      exact .const hg ‹_›
    · exact .earlier hg ‹_› h.1 h.2

/-- A global starts with one value only. -/
theorem GlobalValue.unique (h : m.GlobalValue i v) (h' : m.GlobalValue i v') : v = v' := by
  induction h generalizing v' with
  | imported hg hs =>
    rw [globalValue_iff hg, hs] at h'
    exact h'.symm
  | const hg hs =>
    rw [globalValue_iff hg, hs] at h'
    exact h'.symm
  | earlier hg hs _ _ ih =>
    rw [globalValue_iff hg, hs] at h'
    exact ih h'.2

theorem Offset.unique (h : m.Offset e base) (h' : m.Offset e base') : base = base' := by
  obtain ⟨b, hb, rfl⟩ := h
  obtain ⟨b', hb', rfl⟩ := h'
  cases e with
  | const c => exact congrArg BitVec.toNat (Value.i32.inj (Eq.trans hb (Eq.symm hb')))
  | globalGet j => exact congrArg BitVec.toNat (Value.i32.inj (GlobalValue.unique hb hb'))

end Module

/-! ## Segments -/

/-- What a segment puts into one memory or table: entries one behind the other. -/
structure Placement (β : Type) where
  target : Nat
  offset : InitExpr
  content : List β

def DataSegment.placement (s : DataSegment) : Placement UInt8 := ⟨s.memory.toNat, s.offset, s.bytes⟩

def ElementSegment.placement (s : ElementSegment) : Placement UInt32 :=
  ⟨s.table.toNat, s.offset, s.functions⟩

namespace Placement

variable {β γ : Type}

/-- What is to be filled is there and large enough. -/
def Fits (m : Module) (size? : Nat → Option Nat) (p : Placement β) : Prop :=
  ∃ size base, size? p.target = some size ∧ m.Offset p.offset base ∧ base + p.content.length ≤ size

/-- The entry for place `a` of row `k`. -/
def Puts (m : Module) (p : Placement β) (k a : Nat) (x : β) : Prop :=
  p.target = k ∧ ∃ base, m.Offset p.offset base ∧ base ≤ a ∧ p.content[a - base]? = some x

/-- The place is not covered. -/
def Spares (m : Module) (p : Placement β) (k a : Nat) : Prop := ∀ x, ¬ p.Puts m k a x

/-- A place has the entry of the last one that covers it, and the blank one when none does. -/
def Overlay (m : Module) (entry : β → γ) (blank : γ) (placements : List (Placement β)) (k a : Nat)
    (c : γ) : Prop :=
  (∃ before p after x, placements = before ++ p :: after ∧ p.Puts m k a x ∧
    (∀ later ∈ after, later.Spares m k a) ∧ c = entry x) ∨
  (∀ p ∈ placements, p.Spares m k a) ∧ c = blank

variable {m : Module} {entry : β → γ} {blank c : γ} {p : Placement β} {rest : List (Placement β)}
  {k a : Nat} {x : β}

theorem overlay_cons_of_puts (hp : p.Puts m k a x) (h : Overlay m entry (entry x) rest k a c) :
    Overlay m entry blank (p :: rest) k a c := by
  rcases h with ⟨before, q, after, y, rfl, hq, hafter, rfl⟩ | ⟨hnone, rfl⟩
  · exact Or.inl ⟨p :: before, q, after, y, rfl, hq, hafter, rfl⟩
  · exact Or.inl ⟨[], p, rest, x, rfl, hp, hnone, rfl⟩

theorem overlay_cons_of_spares (hp : p.Spares m k a) (h : Overlay m entry blank rest k a c) :
    Overlay m entry blank (p :: rest) k a c := by
  rcases h with ⟨before, q, after, y, rfl, hq, hafter, rfl⟩ | ⟨hnone, rfl⟩
  · exact Or.inl ⟨p :: before, q, after, y, rfl, hq, hafter, rfl⟩
  · exact Or.inr ⟨List.forall_mem_cons.mpr ⟨hp, hnone⟩, rfl⟩

end Placement

/-! ## Copying -/

/-- Rows that segments are copied into. What stands in a place of a row is made of an entry of the
segment. -/
structure Medium (ρ β γ : Type) where
  size : ρ → Nat
  at? : ρ → Nat → Option γ
  copy : ρ → Nat → List β → ρ
  entry : β → γ

namespace Medium

variable {ρ β γ ε : Type}

/-- Copying changes the places that it covers and nothing else. -/
structure Lawful (M : Medium ρ β γ) : Prop where
  lt_size : ∀ row a c, M.at? row a = some c → a < M.size row
  size_copy : ∀ row base content, M.size (M.copy row base content) = M.size row
  copied : ∀ row base content i x, base + content.length ≤ M.size row → content[i]? = some x →
    M.at? (M.copy row base content) (base + i) = some (M.entry x)
  kept : ∀ row base content a, a < base ∨ base + content.length ≤ a →
    M.at? (M.copy row base content) a = M.at? row a

/-- A step copies a segment into its row if it fits, and stops otherwise. -/
def Copies (M : Medium ρ β γ) (m : Module) (placement : ε → Placement β)
    (step : Array ρ → ε × Nat → Except InitError (Array ρ)) : Prop :=
  ∀ rows s i rows', step rows (s, i) = .ok rows' ↔
    ∃ row base, rows[(placement s).target]? = some row ∧ m.Offset (placement s).offset base ∧
      base + (placement s).content.length ≤ M.size row ∧
      rows' = rows.modify (placement s).target fun row => M.copy row base (placement s).content

def size? (M : Medium ρ β γ) (rows : Array ρ) (k : Nat) : Option Nat := rows[k]?.map M.size

def cell? (M : Medium ρ β γ) (rows : Array ρ) (k a : Nat) : Option γ :=
  rows[k]?.bind fun row => M.at? row a

variable {M : Medium ρ β γ} {m : Module} {placement : ε → Placement β}
  {step : Array ρ → ε × Nat → Except InitError (Array ρ)} {rows rows' : Array ρ} {s : ε} {i : Nat}
  {k a : Nat} {x : β}

theorem Copies.exists_iff (h : M.Copies m placement step) :
    (∃ rows', step rows (s, i) = .ok rows') ↔ (placement s).Fits m (M.size? rows) := by
  constructor
  · rintro ⟨rows', hok⟩
    obtain ⟨row, base, hrow, hbase, hfit, -⟩ := (h _ _ _ _).mp hok
    exact ⟨M.size row, base, by rw [size?, hrow]; rfl, hbase, hfit⟩
  · rintro ⟨size, base, hsize, hbase, hfit⟩
    obtain ⟨row, hrow, rfl⟩ := Option.map_eq_some_iff.mp hsize
    exact ⟨_, (h _ _ _ _).mpr ⟨row, base, hrow, hbase, hfit, rfl⟩⟩

theorem Copies.size?_eq (h : M.Copies m placement step) (hM : M.Lawful)
    (hok : step rows (s, i) = .ok rows') : M.size? rows' = M.size? rows := by
  obtain ⟨row, base, hrow, -, hfit, rfl⟩ := (h _ _ _ _).mp hok
  funext k
  unfold size?
  rw [Array.getElem?_modify]
  split
  · rw [Option.map_map]
    exact congrArg (Option.map · _) (funext fun row => hM.size_copy row _ _)
  · rfl

theorem Copies.cell?_of_puts (h : M.Copies m placement step) (hM : M.Lawful)
    (hok : step rows (s, i) = .ok rows') (hp : (placement s).Puts m k a x) :
    M.cell? rows' k a = some (M.entry x) := by
  obtain ⟨row, base, hrow, hbase, hfit, rfl⟩ := (h _ _ _ _).mp hok
  obtain ⟨rfl, base', hbase', hle, hx⟩ := hp
  obtain rfl := hbase.unique hbase'
  unfold cell?
  rw [Array.getElem?_modify, if_pos rfl, hrow]
  have := hM.copied row base _ _ x hfit hx
  rwa [Nat.add_sub_cancel' hle] at this

theorem Copies.cell?_of_spares (h : M.Copies m placement step) (hM : M.Lawful)
    (hok : step rows (s, i) = .ok rows') (hp : (placement s).Spares m k a) :
    M.cell? rows' k a = M.cell? rows k a := by
  obtain ⟨row, base, hrow, hbase, hfit, rfl⟩ := (h _ _ _ _).mp hok
  unfold cell?
  rw [Array.getElem?_modify]
  split
  · rename_i htarget
    subst htarget
    rw [hrow]
    refine hM.kept row base _ a ?_
    by_contra hinside
    have hlt : a - base < (placement s).content.length := by omega
    exact hp _ ⟨rfl, base, hbase, by omega, List.getElem?_eq_getElem hlt⟩
  · rfl

/-- **A run over segments ends well exactly when all of them fit.** -/
theorem Copies.exists_run_iff (h : M.Copies m placement step) (hM : M.Lawful) (segments : List ε)
    (n : Nat) : (∃ rows', (segments.zipIdx n).foldlM step rows = .ok rows') ↔
      ∀ s ∈ segments, (placement s).Fits m (M.size? rows) := by
  induction segments generalizing rows n with
  | nil => exact ⟨fun _ s hs => absurd hs List.not_mem_nil, fun _ => ⟨rows, rfl⟩⟩
  | cons s rest ih =>
    simp only [List.zipIdx_cons, List.foldlM_cons, InitError.bind_eq_ok_iff, List.forall_mem_cons]
    constructor
    · rintro ⟨rows', next, hok, hrun⟩
      have hrest := (ih (n + 1)).mp ⟨rows', hrun⟩
      rw [h.size?_eq hM hok] at hrest
      exact ⟨h.exists_iff.mp ⟨next, hok⟩, hrest⟩
    · rintro ⟨hfirst, hrest⟩
      obtain ⟨next, hok⟩ := h.exists_iff.mpr hfirst
      rw [← h.size?_eq hM hok] at hrest
      obtain ⟨rows', hrun⟩ := (ih (n + 1)).mpr hrest
      exact ⟨rows', next, hok, hrun⟩

theorem Copies.size?_of_run (h : M.Copies m placement step) (hM : M.Lawful) {segments : List ε}
    {n : Nat} (hrun : (segments.zipIdx n).foldlM step rows = .ok rows') :
    M.size? rows' = M.size? rows := by
  induction segments generalizing rows n with
  | nil =>
    cases hrun
    rfl
  | cons s rest ih =>
    rw [List.zipIdx_cons, List.foldlM_cons, InitError.bind_eq_ok_iff] at hrun
    obtain ⟨next, hok, hrun⟩ := hrun
    rw [ih hrun, h.size?_eq hM hok]

/-- **Behind a run the last segment that covers a place counts.** -/
theorem Copies.overlay_of_run (h : M.Copies m placement step) (hM : M.Lawful) {segments : List ε}
    {n : Nat} {blank c : γ} (hrun : (segments.zipIdx n).foldlM step rows = .ok rows')
    (hblank : M.cell? rows k a = some blank) (hc : M.cell? rows' k a = some c) :
    Placement.Overlay m M.entry blank (segments.map placement) k a c := by
  induction segments generalizing rows n blank with
  | nil =>
    cases hrun
    exact Or.inr ⟨fun p hp => absurd hp List.not_mem_nil, Option.some.inj (hc.symm.trans hblank)⟩
  | cons s rest ih =>
    rw [List.zipIdx_cons, List.foldlM_cons, InitError.bind_eq_ok_iff] at hrun
    obtain ⟨next, hok, hrun⟩ := hrun
    rw [List.map_cons]
    by_cases hp : (placement s).Spares m k a
    · refine Placement.overlay_cons_of_spares hp (ih hrun ?_)
      rw [h.cell?_of_spares hM hok hp]
      exact hblank
    · obtain ⟨x, hx⟩ := not_forall_not.mp hp
      exact Placement.overlay_cons_of_puts hx (ih hrun (h.cell?_of_puts hM hok hx))

/-- The same from rows that are blank. -/
theorem Copies.overlay_of_blank (h : M.Copies m placement step) (hM : M.Lawful) {segments : List ε}
    {n : Nat} {blank c : γ} {row' : ρ} (hrun : (segments.zipIdx n).foldlM step rows = .ok rows')
    (hblank : ∀ row ∈ rows, ∀ a < M.size row, M.at? row a = some blank)
    (hrow : rows'[k]? = some row') (hc : M.at? row' a = some c) :
    Placement.Overlay m M.entry blank (segments.map placement) k a c := by
  have hsize : M.size? rows k = some (M.size row') := by
    rw [← h.size?_of_run hM hrun, size?, hrow]
    rfl
  obtain ⟨row, hk, heq⟩ := Option.map_eq_some_iff.mp hsize
  refine h.overlay_of_run hM hrun ?_ (show M.cell? rows' k a = some c by rw [cell?, hrow]; exact hc)
  rw [cell?, hk]
  exact hblank row (Array.mem_of_getElem? hk) a (by rw [heq]; exact hM.lt_size row' a c hc)

/-! ### Memories and tables -/

/-- Entries in consecutive places of an array. -/
def fill (row : Array γ) (base : Nat) : List γ → Array γ
  | [] => row
  | c :: rest => fill (row.setIfInBounds base c) (base + 1) rest

theorem size_fill (row : Array γ) (base : Nat) (content : List γ) :
    (fill row base content).size = row.size := by
  induction content generalizing row base with
  | nil => rfl
  | cons c rest ih => rw [fill, ih, Array.size_setIfInBounds]

theorem getElem?_fill_outside (row : Array γ) (base : Nat) (content : List γ)
    (ha : a < base ∨ base + content.length ≤ a) : (fill row base content)[a]? = row[a]? := by
  induction content generalizing row base with
  | nil => rfl
  | cons c rest ih =>
    rw [List.length_cons] at ha
    rw [fill, ih _ _ (by omega), Array.getElem?_setIfInBounds_ne (by omega)]

theorem getElem?_fill_inside {row : Array γ} {base : Nat} {content : List γ} {c : γ}
    (hfit : base + content.length ≤ row.size) (hc : content[i]? = some c) :
    (fill row base content)[base + i]? = some c := by
  induction content generalizing row base i with
  | nil => exact absurd hc (by simp)
  | cons first rest ih =>
    rw [List.length_cons] at hfit
    cases i with
    | zero =>
      cases hc
      rw [Nat.add_zero, fill, getElem?_fill_outside _ _ _ (Or.inl (Nat.lt_add_one base)),
        Array.getElem?_setIfInBounds_self_of_lt (by omega)]
    | succ i =>
      rw [fill, ← Nat.add_assoc, Nat.add_right_comm]
      exact ih (by rw [Array.size_setIfInBounds]; omega) hc

theorem data_writeBytes (bytes : ByteArray) (base : Nat) (content : List UInt8) :
    (LinearMemory.writeBytes bytes base content).data = fill bytes.data base content := by
  induction content generalizing bytes base with
  | nil => rfl
  | cons b rest ih =>
    have hset : (LinearMemory.setByte bytes base b).data = bytes.data.setIfInBounds base b := by
      unfold LinearMemory.setByte Array.setIfInBounds
      split
      · rename_i hlt
        rw [ByteArray.data_set, dif_pos (show base < bytes.data.size from hlt)]
      · rename_i hlt
        rw [dif_neg (show ¬ base < bytes.data.size from hlt)]
    rw [LinearMemory.writeBytes, ih, fill, hset]

theorem fillSlots_eq (t : Array (Option UInt32)) (base : Nat) (functions : List UInt32) :
    Machine.fillSlots t base functions = fill t base (functions.map some) := by
  induction functions generalizing t base with
  | nil => rfl
  | cons f rest ih => exact ih _ _

/-- Memories are rows of bytes. -/
def memory : Medium LinearMemory UInt8 UInt8 where
  size := LinearMemory.size
  at? := LinearMemory.byte?
  copy m base content := { m with bytes := LinearMemory.writeBytes m.bytes base content }
  entry := id

/-- Tables are rows of slots, which a function index fills. -/
def table : Medium (Array (Option UInt32)) UInt32 (Option UInt32) where
  size := Array.size
  at? t a := t[a]?
  copy := Machine.fillSlots
  entry := some

theorem lawful_memory : memory.Lawful where
  lt_size m a b hb := (Array.getElem?_eq_some_iff.mp hb).1
  size_copy m base content := by
    show (LinearMemory.writeBytes m.bytes base content).data.size = m.bytes.data.size
    rw [data_writeBytes, size_fill]
  copied m base content i x hfit hx := by
    show (LinearMemory.writeBytes m.bytes base content).data[base + i]? = some x
    rw [data_writeBytes, getElem?_fill_inside hfit hx]
  kept m base content a ha := by
    show (LinearMemory.writeBytes m.bytes base content).data[a]? = m.bytes.data[a]?
    rw [data_writeBytes, getElem?_fill_outside _ _ _ ha]

theorem lawful_table : table.Lawful where
  lt_size t a slot hslot := (Array.getElem?_eq_some_iff.mp hslot).1
  size_copy t base functions := by
    show (Machine.fillSlots t base functions).size = t.size
    rw [fillSlots_eq, size_fill]
  copied t base functions i x hfit hx := by
    show (Machine.fillSlots t base functions)[base + i]? = some (some x)
    rw [fillSlots_eq]
    exact getElem?_fill_inside (by rwa [List.length_map]) (by rw [List.getElem?_map, hx]; rfl)
  kept t base functions a ha := by
    show (Machine.fillSlots t base functions)[a]? = t[a]?
    rw [fillSlots_eq, getElem?_fill_outside _ _ _ (by rwa [List.length_map])]

end Medium

/-! ## Values of the globals -/

namespace Machine

variable {m : Module} {globals : Array Value} {g : Global} {v : Value} {e : InitExpr}

/-- The first globals have their values. -/
def Initialized (m : Module) (globals : Array Value) : Prop :=
  ∀ i, i < globals.size → ∃ g v, m.globals[i]? = some g ∧ globals[i]? = some v ∧
    m.GlobalValue i v ∧ v.type = g.type

theorem Initialized.push (h : Initialized m globals) (hg : m.globals[globals.size]? = some g)
    (hv : m.GlobalValue globals.size v) (htype : v.type = g.type) :
    Initialized m (globals.push v) := by
  intro i hi
  rw [Array.size_push] at hi
  rcases Nat.lt_succ_iff_lt_or_eq.mp hi with hlt | rfl
  · obtain ⟨g', v', hg', hv', hvalue, htype'⟩ := h i hlt
    refine ⟨g', v', hg', ?_, hvalue, htype'⟩
    rw [Array.getElem?_push, if_neg (by omega), hv']
  · exact ⟨g, v, hg, by simp, hv, htype⟩

theorem Initialized.size_le (h : Initialized m globals) : globals.size ≤ m.globals.size := by
  by_contra hlarge
  obtain ⟨g, -, hg, -⟩ := h m.globals.size (Nat.lt_of_not_le hlarge)
  exact absurd (Array.getElem?_eq_some_iff.mp hg).1 (Nat.lt_irrefl _)

theorem Initialized.exists_value (h : Initialized m globals) {j : Nat} (hj : globals[j]? = some v) :
    ∃ g, m.globals[j]? = some g ∧ m.GlobalValue j v ∧ v.type = g.type := by
  obtain ⟨hlt, -⟩ := Array.getElem?_eq_some_iff.mp hj
  obtain ⟨g, v', hg, hv', hvalue, htype⟩ := h j hlt
  cases hj.symm.trans hv'
  exact ⟨g, hg, hvalue, htype⟩

/-- A global is initialised exactly when its initializer fits. -/
theorem initGlobal_of_fits (h : Initialized m globals) (hg : m.globals[globals.size]? = some g)
    (hfits : m.GlobalFits globals.size g) : ∃ v, initGlobal globals g = .ok (globals.push v) ∧
      m.GlobalValue globals.size v ∧ v.type = g.type := by
  unfold Module.GlobalFits at hfits
  unfold initGlobal
  cases hs : g.source with
  | imported name => exact ⟨.zero g.type, rfl, .imported hg hs, Value.type_zero g.type⟩
  | init e =>
    rw [hs] at hfits
    cases e with
    | const v =>
      have htype : v.type = g.type := hfits
      exact ⟨v, by simp [evalInit, htype], .const hg hs, htype⟩
    | globalGet j =>
      obtain ⟨hlt, g', hg', htype⟩ : j.toNat < globals.size ∧ _ := hfits
      obtain ⟨g'', v, hg'', hv, hvalue, hvtype⟩ := h _ hlt
      cases hg'.symm.trans hg''
      exact ⟨v, by simp [evalInit, hv, hvtype, htype], .earlier hg hs hlt hvalue, hvtype.trans htype⟩

theorem fits_of_initGlobal (h : Initialized m globals) {next : Array Value}
    (hok : initGlobal globals g = .ok next) : m.GlobalFits globals.size g := by
  unfold initGlobal at hok
  unfold Module.GlobalFits
  cases hs : g.source with
  | imported name => trivial
  | init e =>
    rw [hs] at hok
    cases e with
    | const v =>
      simp only [evalInit] at hok
      split at hok
      · assumption
      · cases hok
    | globalGet j =>
      cases hv : globals[j.toNat]? with
      | none =>
        simp [evalInit, hv] at hok
      | some v =>
        obtain ⟨g', hg', -, htype⟩ := h.exists_value hv
        simp only [evalInit, hv] at hok
        split at hok
        · rename_i hvtype
          exact ⟨(Array.getElem?_eq_some_iff.mp hv).1, g', hg', htype.symm.trans hvtype⟩
        · cases hok

/-- One more global. -/
theorem Initialized.next (h : Initialized m globals) (hg : m.globals[globals.size]? = some g)
    {next : Array Value} (hok : initGlobal globals g = .ok next) :
    m.GlobalFits globals.size g ∧ Initialized m next ∧ next.size = globals.size + 1 := by
  have hfits := fits_of_initGlobal h hok
  obtain ⟨v, hpush, hvalue, htype⟩ := initGlobal_of_fits h hg hfits
  cases hok.symm.trans hpush
  exact ⟨hfits, h.push hg hvalue htype, Array.size_push v⟩

/-- **The globals**, from some of them to all. -/
theorem foldlM_initGlobal {rest : List Global} (h : Initialized m globals)
    (hrest : m.globals.toList.drop globals.size = rest) :
    ((∃ final, rest.foldlM initGlobal globals = .ok final) ↔
      ∀ i g, globals.size ≤ i → m.globals[i]? = some g → m.GlobalFits i g) ∧
    ∀ final, rest.foldlM initGlobal globals = .ok final →
      Initialized m final ∧ m.globals.size ≤ final.size := by
  induction rest generalizing globals with
  | nil =>
    have hsize : m.globals.size ≤ globals.size := by simpa using List.drop_eq_nil_iff.mp hrest
    refine ⟨⟨fun _ i g hi hg => ?_, fun _ => ⟨globals, rfl⟩⟩, ?_⟩
    · have := (Array.getElem?_eq_some_iff.mp hg).1
      omega
    · rintro _ ⟨⟩
      exact ⟨h, hsize⟩
  | cons g rest ih =>
    have hg : m.globals[globals.size]? = some g := by
      rw [← Array.getElem?_toList, ← List.head?_drop, hrest]
      rfl
    have hmore : m.globals.toList.drop (globals.size + 1) = rest := by
      rw [← List.tail_drop, hrest]
      rfl
    simp only [List.foldlM_cons, InitError.bind_eq_ok_iff]
    refine ⟨⟨?_, fun hall => ?_⟩, ?_⟩
    · rintro ⟨final, next, hok, hrun⟩ i g' hi hg'
      obtain ⟨hfits, hnext, hsize⟩ := h.next hg hok
      rcases Nat.eq_or_lt_of_le hi with rfl | hlt
      · cases hg.symm.trans hg'
        exact hfits
      · exact (ih hnext (by rwa [hsize])).1.mp ⟨final, hrun⟩ i g' (by omega) hg'
    · obtain ⟨v, hpush, -, -⟩ := initGlobal_of_fits h hg (hall _ g (Nat.le_refl _) hg)
      obtain ⟨-, hnext, hsize⟩ := h.next hg hpush
      obtain ⟨final, hrun⟩ := (ih hnext (by rwa [hsize])).1.mpr
        fun i g' hi hg' => hall i g' (by omega) hg'
      exact ⟨final, _, hpush, hrun⟩
    · rintro final ⟨next, hok, hrun⟩
      obtain ⟨-, hnext, hsize⟩ := h.next hg hok
      exact (ih hnext (by rwa [hsize])).2 final hrun

/-! ## Segments in machines -/

/-- All globals have their values. -/
theorem evalInit_eq_ok_iff (h : Initialized m globals) (hsize : m.globals.size ≤ globals.size) :
    evalInit globals e = .ok v ↔ m.ExprValue e v := by
  cases e with
  | const c =>
    simp only [evalInit, Module.ExprValue, Except.ok.injEq]
    exact eq_comm
  | globalGet j =>
    have heval : evalInit globals (.globalGet j) = .ok v ↔ globals[j.toNat]? = some v := by
      cases hj : globals[j.toNat]? <;> simp [evalInit, hj]
    rw [heval]
    constructor
    · intro hj
      obtain ⟨-, -, hvalue, -⟩ := h.exists_value hj
      exact hvalue
    · intro hvalue
      have hlt := hvalue.lt_size
      obtain ⟨-, v', -, hv', hvalue', -⟩ := h j.toNat (by omega)
      rw [hv', hvalue.unique hvalue']

theorem segmentBase_eq_ok_iff (h : Initialized m globals) (hsize : m.globals.size ≤ globals.size)
    (mismatch : InitError) {base : Nat} :
    segmentBase globals e mismatch = .ok base ↔ m.Offset e base := by
  unfold segmentBase Module.Offset
  simp only [← evalInit_eq_ok_iff h hsize]
  cases evalInit globals e with
  | error e => exact iff_of_false nofun (by simp)
  | ok v =>
    simp only [Except.ok.injEq]
    cases v <;> simp [Value.asInt?]

/-- What copying a segment checks, in this order: the row is there, it starts somewhere, it fits. -/
theorem checkedCopy_eq_ok_iff {ρ : Type} {rows rows' : Array ρ} {k : Nat}
    {mismatch missing bounds : InitError} {fits : Nat → ρ → Bool} {copied : Nat → Array ρ}
    (h : Initialized m globals) (hsize : m.globals.size ≤ globals.size) :
    (if k < rows.size then
      match segmentBase globals e mismatch with
      | .error e => .error e
      | .ok base => if rows[k]?.any (fits base) then .ok (copied base) else .error bounds
    else .error missing) = Except.ok rows' ↔
      ∃ row base, rows[k]? = some row ∧ m.Offset e base ∧ fits base row = true ∧
        rows' = copied base := by
  simp only [← segmentBase_eq_ok_iff h hsize mismatch]
  cases hrow : rows[k]? with
  | none =>
    rw [if_neg (Nat.not_lt_of_ge (Array.getElem?_eq_none_iff.mp hrow))]
    exact iff_of_false nofun (by simp)
  | some row =>
    rw [if_pos (Array.getElem?_eq_some_iff.mp hrow).1]
    cases segmentBase globals e mismatch with
    | error cause => exact iff_of_false nofun (by simp)
    | ok base =>
      constructor
      · intro hok
        dsimp only at hok
        split at hok
        · cases hok
          exact ⟨row, base, rfl, rfl, ‹_›, rfl⟩
        · cases hok
      · rintro ⟨_, _, ⟨⟩, ⟨⟩, hfit, rfl⟩
        exact if_pos hfit

theorem mapM_initMemory_eq_ok_iff {hostPages : Nat} {storage : List Storage}
    {memories : List LinearMemory} : storage.mapM (initMemory hostPages) = .ok memories ↔
      (∀ s ∈ storage, s.limits.min.toNat ≤ hostPages) ∧
        memories = storage.map fun s => .ofLimits s.limits hostPages := by
  induction storage generalizing memories with
  | nil => simp [pure, Except.pure, eq_comm]
  | cons s rest ih =>
    simp only [List.mapM_cons, InitError.bind_eq_ok_iff, ih, List.forall_mem_cons, List.map_cons]
    unfold initMemory
    constructor
    · rintro ⟨first, hfirst, _, ⟨hrest, rfl⟩, hpure⟩
      split at hfirst
      · cases hfirst
        cases hpure
        exact ⟨⟨‹_›, hrest⟩, rfl⟩
      · cases hfirst
    · rintro ⟨⟨hs, hrest⟩, rfl⟩
      exact ⟨_, if_pos hs, _, ⟨hrest, rfl⟩, rfl⟩

theorem copies_initData (h : Initialized m globals) (hsize : m.globals.size ≤ globals.size) :
    Medium.memory.Copies m DataSegment.placement (initData globals) := by
  intro memories s i memories'
  refine (checkedCopy_eq_ok_iff h hsize).trans ?_
  simp only [LinearMemory.inBounds, decide_eq_true_eq]
  rfl

theorem copies_initElements (h : Initialized m globals) (hsize : m.globals.size ≤ globals.size) :
    Medium.table.Copies m ElementSegment.placement (initElements globals) := by
  intro tables s i tables'
  refine (checkedCopy_eq_ok_iff h hsize).trans ?_
  simp only [decide_eq_true_eq]
  rfl

end Machine

/-! ## Empty memories and tables -/

theorem LinearMemory.size_ofLimits (limits : Limits) (hostPages : Nat) :
    (ofLimits limits hostPages).size = limits.min.toNat * pageSize := by
  show (appendPages .empty limits.min.toNat).data.size = _
  simp [data_appendPages]

/-- A new memory has zeros. -/
theorem LinearMemory.byte?_ofLimits (limits : Limits) (hostPages : Nat) {a : Nat}
    (ha : a < (ofLimits limits hostPages).size) : (ofLimits limits hostPages).byte? a = some 0 := by
  rw [size_ofLimits] at ha
  show (appendPages .empty limits.min.toNat).data[a]? = _
  rw [data_appendPages]
  simp [ha]

/-! ## Modules and their machines -/

namespace Module

def memorySize? (m : Module) (k : Nat) : Option Nat :=
  m.memories[k]?.map fun s => s.limits.min.toNat * pageSize

def tableSize? (m : Module) (k : Nat) : Option Nat := m.tables[k]?.map (·.limits.min.toNat)

/-- Nothing in the module stands in the way of a machine. -/
structure Instantiable (m : Module) (maxMemoryPages : Nat) : Prop where
  globals : ∀ i g, m.globals[i]? = some g → m.GlobalFits i g
  memories : ∀ s ∈ m.memories, s.limits.min.toNat ≤ maxMemoryPages
  data : ∀ s ∈ m.data, s.placement.Fits m m.memorySize?
  elements : ∀ s ∈ m.elements, s.placement.Fits m m.tableSize?

/-- **The machine of a module**: the values of the globals, and rows of the declared sizes in which
every entry comes from the last segment that covers it. -/
structure Instance (m : Module) (x : Machine) : Prop where
  globals : x.globals.size = m.globals.size ∧ ∀ i v, x.globals[i]? = some v → m.GlobalValue i v
  memories : ∀ k, x.memories[k]?.map LinearMemory.size = m.memorySize? k
  bytes : ∀ k memory a b, x.memories[k]? = some memory → memory.byte? a = some b →
    Placement.Overlay m id 0 (m.data.map DataSegment.placement) k a b
  tables : ∀ k, x.tables[k]?.map Array.size = m.tableSize? k
  slots : ∀ k table a slot, x.tables[k]? = some table → table[a]? = some slot →
    Placement.Overlay m some none (m.elements.map ElementSegment.placement) k a slot

end Module

namespace Machine

variable {m : Module} {limits : Limitation} {x : Machine}

theorem instantiate?_eq_ok_iff : instantiate? m limits = .ok x ↔
    ∃ globals, m.globals.toList.foldlM initGlobal #[] = .ok globals ∧
      ∃ blank, m.memories.toList.mapM (initMemory limits.maxMemoryPages) = .ok blank ∧
      ∃ memories, m.data.zipIdx.foldlM (initData globals) blank.toArray = .ok memories ∧
      ∃ tables, m.elements.zipIdx.foldlM (initElements globals) (m.tables.map initTable) =
        .ok tables ∧
      { ip := ⟨0, 0⟩, stack := .empty limits.maxValueStack, frames := [], globals, memories,
        tables } = x := by
  simp only [instantiate?, InitError.bind_eq_ok_iff, pure, Except.pure, Except.ok.injEq]

theorem initialized_empty (m : Module) : Initialized m #[] := fun i hi => absurd hi (by simp)

theorem size?_blank (m : Module) (hostPages : Nat) : Medium.memory.size?
    (m.memories.toList.map fun s => LinearMemory.ofLimits s.limits hostPages).toArray =
      m.memorySize? := by
  funext k
  simp [Medium.size?, Medium.memory, Module.memorySize?, LinearMemory.size_ofLimits,
    Function.comp_def]

theorem size?_initTable (m : Module) : Medium.table.size? (m.tables.map initTable) = m.tableSize? := by
  funext k
  simp [Medium.size?, Medium.table, Module.tableSize?, initTable, Function.comp_def]

/-- **Which modules become machines.** -/
theorem exists_instantiate?_iff :
    (∃ x, instantiate? m limits = .ok x) ↔ m.Instantiable limits.maxMemoryPages := by
  simp only [instantiate?_eq_ok_iff]
  obtain ⟨hglobals, hvalues⟩ := foldlM_initGlobal (initialized_empty m) (List.drop_zero)
  constructor
  · rintro ⟨x, globals, hrun, blank, hblank, memories, hdata, tables, helements, -⟩
    obtain ⟨hinit, hsize⟩ := hvalues globals hrun
    obtain ⟨hmemories, rfl⟩ := mapM_initMemory_eq_ok_iff.mp hblank
    refine ⟨fun i g hg => ?_, fun s hs => ?_, ?_, ?_⟩
    · exact hglobals.mp ⟨globals, hrun⟩ i g (Nat.zero_le i) hg
    · exact hmemories s (Array.mem_toList_iff.mpr hs)
    · rw [← size?_blank m limits.maxMemoryPages]
      exact ((copies_initData hinit hsize).exists_run_iff Medium.lawful_memory _ 0).mp
        ⟨memories, hdata⟩
    · rw [← size?_initTable]
      exact ((copies_initElements hinit hsize).exists_run_iff Medium.lawful_table _ 0).mp
        ⟨tables, helements⟩
  · intro h
    obtain ⟨globals, hrun⟩ := hglobals.mpr fun i g _ hg => h.globals i g hg
    obtain ⟨hinit, hsize⟩ := hvalues globals hrun
    have hblank := mapM_initMemory_eq_ok_iff.mpr
      ⟨fun s hs => h.memories s (Array.mem_toList_iff.mp hs), rfl⟩
    obtain ⟨memories, hdata⟩ :=
      ((copies_initData hinit hsize).exists_run_iff Medium.lawful_memory m.data 0).mpr
        (by rw [size?_blank m limits.maxMemoryPages]; exact h.data)
    obtain ⟨tables, helements⟩ :=
      ((copies_initElements hinit hsize).exists_run_iff Medium.lawful_table m.elements 0).mpr
        (by rw [size?_initTable]; exact h.elements)
    exact ⟨_, globals, hrun, _, hblank, memories, hdata, tables, helements, rfl⟩

/-- **What is in a new machine.** -/
theorem instance_of_instantiate? (h : instantiate? m limits = .ok x) : m.Instance x := by
  obtain ⟨globals, hrun, blank, hblank, memories, hdata, tables, helements, rfl⟩ :=
    instantiate?_eq_ok_iff.mp h
  obtain ⟨hinit, hsize⟩ := (foldlM_initGlobal (initialized_empty m) List.drop_zero).2 globals hrun
  obtain ⟨-, rfl⟩ := mapM_initMemory_eq_ok_iff.mp hblank
  have hmemorySizes := (copies_initData hinit hsize).size?_of_run Medium.lawful_memory hdata
  have htableSizes := (copies_initElements hinit hsize).size?_of_run Medium.lawful_table helements
  refine ⟨⟨Nat.le_antisymm hinit.size_le hsize, fun i v hv => ?_⟩, fun k => ?_, ?_, fun k => ?_, ?_⟩
  · obtain ⟨-, -, hvalue, -⟩ := hinit.exists_value hv
    exact hvalue
  · exact congrFun (hmemorySizes.trans (size?_blank m limits.maxMemoryPages)) k
  · intro k memory a b hmemory hb
    refine (copies_initData hinit hsize).overlay_of_blank Medium.lawful_memory hdata ?_ hmemory hb
    intro row hrow a ha
    obtain ⟨s, -, rfl⟩ := List.mem_map.mp (List.mem_toArray.mp hrow)
    exact LinearMemory.byte?_ofLimits s.limits limits.maxMemoryPages ha
  · exact congrFun (htableSizes.trans (size?_initTable m)) k
  · intro k table a slot htable hslot
    refine (copies_initElements hinit hsize).overlay_of_blank Medium.lawful_table helements ?_
      htable hslot
    intro row hrow a ha
    obtain ⟨t, -, rfl⟩ := Array.mem_map.mp hrow
    have ha' : a < t.limits.min.toNat := by simpa [Medium.table, initTable] using ha
    simp [Medium.table, initTable, ha']

end Machine

/-- **Instantiation computes the overlay of the segments**: an execution is made of a module exactly
when the module is instantiable, and what it starts with is the instance. -/
theorem Execution.instantiation_computes_overlay (m : Module) (limits : Limitation) :
    ((∃ e, ofModule? (some m) limits = .ok e) ↔ m.Instantiable limits.maxMemoryPages) ∧
      ∀ e, ofModule? (some m) limits = .ok e → m.Instance e.machine := by
  have hmade : ∀ e, ofModule? (some m) limits = .ok e ↔
      ∃ x, Machine.instantiate? m limits = .ok x ∧ ⟨x, .uninitialized⟩ = e := by
    intro e
    show (Machine.instantiate? m limits).map _ = _ ↔ _
    cases Machine.instantiate? m limits <;> simp [Except.map]
  constructor
  · rw [← Machine.exists_instantiate?_iff]
    constructor
    · rintro ⟨e, he⟩
      obtain ⟨x, hx, -⟩ := (hmade e).mp he
      exact ⟨x, hx⟩
    · rintro ⟨x, hx⟩
      exact ⟨⟨x, .uninitialized⟩, (hmade _).mpr ⟨x, hx, rfl⟩⟩
  · intro e he
    obtain ⟨x, hx, rfl⟩ := (hmade e).mp he
    exact Machine.instance_of_instantiate? hx

/-- Two segments that overlap, the second of which starts at the value of a global that has it from
another one. -/
def overlapping : Module where
  memories := #[⟨⟨1, none⟩, none⟩]
  globals := #[⟨.i32, false, .init (.const (.i32 1))⟩, ⟨.i32, false, .init (.globalGet 0)⟩]
  data := [⟨0, .const (.i32 0), [1, 2, 3]⟩, ⟨0, .globalGet 1, [9]⟩]

theorem instantiable_overlapping : overlapping.Instantiable maxPages where
  globals i g hg := by
    match i with
    | 0 =>
      cases hg
      rfl
    | 1 =>
      cases hg
      exact ⟨by decide, _, rfl, rfl⟩
    | i + 2 => simp [overlapping] at hg
  memories := by decide
  data := by
    have hbase : overlapping.Offset (.globalGet 1) 1 :=
      ⟨1, .earlier rfl rfl (by decide) (.const rfl rfl), rfl⟩
    exact List.forall_mem_cons.mpr ⟨⟨_, 0, rfl, ⟨0, rfl, rfl⟩, by decide⟩,
      List.forall_mem_singleton.mpr ⟨_, 1, rfl, hbase, by decide⟩⟩
  elements s hs := absurd hs List.not_mem_nil

theorem Execution.instantiation_computes_overlay_overlapping :
    ∃ e, ofModule? (some overlapping) {} = .ok e ∧ overlapping.Instance e.machine := by
  have h := instantiation_computes_overlay overlapping {}
  obtain ⟨e, he⟩ := h.1.mpr instantiable_overlapping
  exact ⟨e, he, h.2 e he⟩

end WasmDebugger
