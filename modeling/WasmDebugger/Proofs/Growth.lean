import WasmDebugger.Proofs.ByteAccess
import WasmDebugger.Proofs.Constants
import WasmDebugger.Proofs.HostAnswers
import WasmDebugger.Proofs.Instantiation
import WasmDebugger.Proofs.WellFormed

/-!
# Sizes of memories

A memory is a whole number of pages, and only one instruction ever adds some. Their number is kept
beside the bytes, in 32 bits. The bound on it is fixed when the machine is made, by what the module
declares, what addresses reach and what the host allows.

* `Storage.pageBound`: that bound. `Machine.Paged`: every memory keeps to it, and its bytes are as
  many as its pages say.
* `LinearMemory.grow?_eq_some_iff`: growth compares in 32 bits, and yet there is room exactly when
  the sum of the pages is within the bound.
* `LinearMemory.Lengthened`: a memory with pages of zeros behind what it had.
* `Machine.Wider`: no memory has lost a page.
* `dispatch_extents`, `extents_enterEntry`: sizes, page counts and bounds outlast every instruction
  but growth and every entry from outside, whatever the host hands back.
* **`memory_grows_in_pages`**: the bytes never differ from what the pages say, pages are bounded and
  never taken away; growth adds as many as it is asked for or answers with minus one, and nothing
  else changes a size.
-/

namespace WasmDebugger

/-- The most pages that a declared memory may come to have: the declared maximum, what 32-bit
addresses reach, or what the host allows, whichever is least. -/
def Storage.pageBound (s : Storage) (hostPages : Nat) : Nat :=
  min ((s.limits.max.map UInt32.toNat).getD maxPages) (min maxPages hostPages)

namespace LinearMemory

variable {memory memory' grown : LinearMemory} {pages : Nat} {delta : UInt32}

/-- The memory has as many bytes as its pages say. -/
def WholePages (memory : LinearMemory) : Prop := memory.size = memory.pages.toNat * pageSize

/-- **A memory with pages of zeros behind what it had.** -/
structure Lengthened (memory : LinearMemory) (pages : Nat) (memory' : LinearMemory) : Prop where
  size : memory'.size = memory.size + pages * pageSize
  pages : memory'.pages.toNat = memory.pages.toNat + pages
  bound : memory'.bound = memory.bound
  old : ∀ k < memory.size, memory'.byte? k = memory.byte? k
  new : ∀ k, memory.size ≤ k → k < memory'.size → memory'.byte? k = some 0

/-- Size, page count and bound of a memory. -/
def extent (memory : LinearMemory) : Nat × UInt32 × UInt32 :=
  (memory.size, memory.pages, memory.bound)

/-! ## Room -/

/-- Nothing wraps around below the bound. -/
theorem toNat_pages_add (h : memory.pages.toNat + delta.toNat ≤ memory.bound.toNat) :
    (memory.pages + delta).toNat = memory.pages.toNat + delta.toNat := by
  rw [UInt32.toNat_add]
  exact Nat.mod_eq_of_lt (Nat.lt_of_le_of_lt h memory.bound.toNat_lt)

/-- The comparisons in 32 bits say what the unbounded sum says. -/
theorem room_iff : ¬(memory.bound < memory.pages ∨ memory.bound - memory.pages < delta) ↔
    memory.pages.toNat + delta.toNat ≤ memory.bound.toNat := by
  rw [not_or, UInt32.not_lt, UInt32.not_lt]
  constructor
  · rintro ⟨hbound, hdelta⟩
    rw [UInt32.le_iff_toNat_le] at hbound hdelta
    rw [UInt32.toNat_sub_of_le _ _ (UInt32.le_iff_toNat_le.mpr hbound)] at hdelta
    omega
  · intro h
    have hbound : memory.pages ≤ memory.bound := UInt32.le_iff_toNat_le.mpr (by omega)
    refine ⟨hbound, UInt32.le_iff_toNat_le.mpr ?_⟩
    rw [UInt32.toNat_sub_of_le _ _ hbound]
    omega

/-- **A memory grows exactly when all the pages are within the bound.** -/
theorem grow?_eq_some_iff : memory.grow? delta = some grown ↔
    memory.pages.toNat + delta.toNat ≤ memory.bound.toNat ∧
      { memory with
        bytes := fillUp memory.bytes ((memory.pages + delta).toNat * pageSize)
        pages := memory.pages + delta } = grown := by
  unfold grow?
  rw [← room_iff]
  split <;> simp_all

theorem grow?_eq_none_iff : memory.grow? delta = none ↔
    memory.bound.toNat < memory.pages.toNat + delta.toNat := by
  rw [Option.eq_none_iff_forall_ne_some]
  simp only [ne_eq, grow?_eq_some_iff, not_and, ← Nat.not_le]
  exact ⟨fun h hfits => h _ hfits rfl, fun h _ hfits => absurd hfits h⟩

/-- **Growth of a memory in whole pages lengthens it by whole pages.** -/
theorem lengthened_grow? (h : memory.grow? delta = some grown) (hw : memory.WholePages) :
    memory.Lengthened delta.toNat grown := by
  obtain ⟨hfits, rfl⟩ := grow?_eq_some_iff.mp h
  have hpages := toNat_pages_add hfits
  have hmissing : (memory.pages + delta).toNat * pageSize - memory.bytes.size =
      delta.toNat * pageSize := by
    have hw : memory.bytes.size = memory.pages.toNat * pageSize := hw
    rw [hpages, hw, Nat.add_mul, Nat.add_sub_cancel_left]
  have hdata := data_fillUp memory.bytes ((memory.pages + delta).toNat * pageSize)
  rw [hmissing] at hdata
  have hsize := congrArg Array.size hdata
  rw [Array.size_append, Array.size_replicate] at hsize
  refine ⟨hsize, hpages, rfl, fun k hk => ?_, fun k hlow hhigh => ?_⟩
  · exact (congrArg (·[k]?) hdata).trans (Array.getElem?_append_left hk)
  · refine (congrArg (·[k]?) hdata).trans ?_
    have hk : k < memory.size + delta.toNat * pageSize := hhigh.trans_eq hsize
    rw [Array.getElem?_append_right hlow, Array.getElem?_replicate, if_pos]
    show k - memory.size < _
    omega

theorem Lengthened.wholePages (h : memory.Lengthened pages memory') (hw : memory.WholePages) :
    memory'.WholePages := by
  unfold WholePages
  rw [h.size, h.pages, Nat.add_mul, hw]

end LinearMemory

namespace Machine

variable {module : Module} {limits : Limitation} {setup : Setup} {watch : Breakpoints}
  {m m' m'' : Machine} {memory grown : LinearMemory} {delta : UInt32}

/-! ## Sizes -/

/-- **Memories are whole pages within their bounds**, and there are those that are declared. -/
structure Paged (module : Module) (limits : Limitation) (m : Machine) : Prop where
  count : m.memories.size = module.memories.size
  pages : ∀ (k : Nat) (memory : LinearMemory) (s : Storage), m.memories[k]? = some memory →
    module.memories[k]? = some s →
    memory.WholePages ∧ memory.pages.toNat ≤ s.pageBound limits.maxMemoryPages ∧
      memory.bound.toNat = s.pageBound limits.maxMemoryPages

/-- No memory has lost a page. -/
structure Wider (m m' : Machine) : Prop where
  count : m'.memories.size = m.memories.size
  pages : ∀ (k : Nat) (memory memory' : LinearMemory), m.memories[k]? = some memory →
    m'.memories[k]? = some memory' → memory.pages.toNat ≤ memory'.pages.toNat

/-- Sizes, page counts and bounds of the memories. -/
def extents (m : Machine) : Array (Nat × UInt32 × UInt32) := m.memories.map LinearMemory.extent

theorem size_of_extents (h : m'.extents = m.extents) : m'.memories.size = m.memories.size := by
  have hsize := congrArg Array.size h
  rwa [extents, extents, Array.size_map, Array.size_map] at hsize

theorem exists_of_extents {k : Nat} {memory' : LinearMemory} (h : m'.extents = m.extents)
    (hk : m'.memories[k]? = some memory') :
    ∃ memory, m.memories[k]? = some memory ∧ memory'.size = memory.size ∧
      memory'.pages = memory.pages ∧ memory'.bound = memory.bound := by
  have hextent : m.extents[k]? = some memory'.extent := by
    rw [← h, extents, Array.getElem?_map, hk]
    rfl
  rw [extents, Array.getElem?_map] at hextent
  obtain ⟨memory, hmemory, he⟩ := Option.map_eq_some_iff.mp hextent
  obtain ⟨hsize, hrest⟩ := Prod.mk.inj he
  obtain ⟨hpages, hbound⟩ := Prod.mk.inj hrest
  exact ⟨memory, hmemory, hsize.symm, hpages.symm, hbound.symm⟩

theorem Wider.refl (m : Machine) : Wider m m where
  count := rfl
  pages k memory memory' h h' := by
    cases h.symm.trans h'
    exact Nat.le_refl _

theorem Wider.trans (h : Wider m m') (h' : Wider m' m'') : Wider m m'' where
  count := h'.count.trans h.count
  pages k memory memory'' hk hk'' := by
    have hlt : k < m'.memories.size := by
      rw [h.count]
      exact (Array.getElem?_eq_some_iff.mp hk).1
    have hk' := Array.getElem?_eq_getElem hlt
    exact (h.pages k _ _ hk hk').trans (h'.pages k _ _ hk' hk'')

theorem wider_of_extents (h : m'.extents = m.extents) : Wider m m' where
  count := size_of_extents h
  pages k memory memory' hk hk' := by
    obtain ⟨_, hmemory, -, hpages, -⟩ := exists_of_extents h hk'
    cases hk.symm.trans hmemory
    rw [hpages]

theorem Paged.of_extents (hp : Paged module limits m) (h : m'.extents = m.extents) :
    Paged module limits m' where
  count := (size_of_extents h).trans hp.count
  pages k memory' s hk hs := by
    obtain ⟨memory, hmemory, hsize, hpages, hbound⟩ := exists_of_extents h hk
    unfold LinearMemory.WholePages
    rw [hsize, hpages, hbound]
    exact hp.pages k memory s hmemory hs

/-! ## Growth -/

/-- The first memory has been replaced by one that has grown. -/
structure Grown (m m' : Machine) (memory grown : LinearMemory) (delta : UInt32) : Prop where
  first : m.memory? = some memory
  grows : memory.grow? delta = some grown
  memories : m'.memories = m.memories.setIfInBounds 0 grown

theorem Grown.getElem? (h : Grown m m' memory grown delta) {k : Nat} {memory' : LinearMemory}
    (hk : m'.memories[k]? = some memory') :
    (k = 0 ∧ memory' = grown) ∨ m.memories[k]? = some memory' := by
  rw [h.memories, Array.getElem?_setIfInBounds] at hk
  split at hk
  · rename_i hzero
    split at hk
    · cases hk
      exact .inl ⟨hzero.symm, rfl⟩
    · exact absurd hk nofun
  · exact .inr hk

theorem Grown.wider (h : Grown m m' memory grown delta) : Wider m m' where
  count := by rw [h.memories, Array.size_setIfInBounds]
  pages k old new hk hk' := by
    rcases h.getElem? hk' with ⟨rfl, rfl⟩ | hsame
    · cases hk.symm.trans h.first
      obtain ⟨hfits, rfl⟩ := LinearMemory.grow?_eq_some_iff.mp h.grows
      exact Nat.le_trans (Nat.le_add_right _ _) (LinearMemory.toNat_pages_add hfits).ge
    · cases hk.symm.trans hsame
      exact Nat.le_refl _

theorem Grown.paged (h : Grown m m' memory grown delta) (hp : Paged module limits m) :
    Paged module limits m' where
  count := h.wider.count.trans hp.count
  pages k new s hk hs := by
    rcases h.getElem? hk with ⟨rfl, rfl⟩ | hsame
    · obtain ⟨hwhole, -, hbound⟩ := hp.pages 0 memory s h.first hs
      have hlengthened := LinearMemory.lengthened_grow? h.grows hwhole
      obtain ⟨hfits, -⟩ := LinearMemory.grow?_eq_some_iff.mp h.grows
      refine ⟨hlengthened.wholePages hwhole, ?_, ?_⟩
      · rw [hlengthened.pages, ← hbound]
        exact hfits
      · rw [hlengthened.bound, hbound]
    · exact hp.pages k new s hsame hs

/-! ## Instructions and entries -/

theorem map_extent_modify (memories : Array LinearMemory) (k : Nat)
    {f : LinearMemory → LinearMemory} (hf : ∀ memory, (f memory).extent = memory.extent) :
    (memories.modify k f).map LinearMemory.extent = memories.map LinearMemory.extent := by
  refine Array.ext_getElem? fun j => ?_
  rw [Array.getElem?_map, Array.getElem?_map, Array.getElem?_modify]
  split
  · rw [Option.map_map]
    congr 1
    exact funext hf
  · rfl

theorem extents_modify {f : LinearMemory → LinearMemory}
    (hf : ∀ memory, (f memory).extent = memory.extent)
    (h : m'.memories = m.memories.modify 0 f) : m'.extents = m.extents := by
  unfold extents
  rw [h]
  exact map_extent_modify _ 0 hf

theorem extent_write (memory : LinearMemory) (address length n : Nat) :
    (memory.write address length n).extent = memory.extent :=
  congrArg (·, memory.pages, memory.bound) (LinearMemory.size_writeNat n)

theorem extent_overwriteFront (image : ByteArray) (memory : LinearMemory) :
    (memory.overwriteFront image).extent = memory.extent :=
  congrArg (·, memory.pages, memory.bound) LinearMemory.size_overwriteFront

theorem extents_eq (h : m'.memories = m.memories) : m'.extents = m.extents := by
  unfold extents
  rw [h]

/-- An instruction leaves all extents alone, or it has grown the first memory. -/
theorem dispatch_extents (setup : Setup) (watch : Breakpoints) (m : Machine) :
    (m.dispatch setup watch).machine.extents = m.extents ∨
      fetch? setup m.ip = some .memoryGrow ∧
        ∃ memory grown delta, Grown m (m.dispatch setup watch).machine memory grown delta := by
  rcases dispatch_written setup watch m with hk | ⟨i, hi, hw⟩
  · exact .inl (extents_eq hk.memories)
  · generalize m.dispatch setup watch = step at hw
    cases hw with
    | kept hk => exact .inl (extents_eq hk.memories)
    | assigned _ _ hmemories =>
      rw [machine_watchedAt]
      exact .inl (extents_eq hmemories)
    | stored _ _ hmemories =>
      rw [machine_watchedAt]
      exact .inl (extents_modify (fun memory => extent_write memory _ _ _) hmemories)
    | grown hinstr hmemory hgrow _ hmemories =>
      exact .inr ⟨hinstr ▸ hi, _, _, _, hmemory, hgrow, hmemories⟩
    | answered _ ha =>
      cases ha with
      | failed _ | threw _ | refused _ _ _ | full _ _ _ => exact .inl (extents_eq rfl)
      | taken _ _ _ _ _ _ _ _ hmemories =>
        exact .inl (extents_modify (extent_overwriteFront _) hmemories)

theorem extents_enterEntry (setup : Setup) (f : Nat) (args : List Value) (m : Machine) :
    (Execution.enterEntry setup f args m).machine.extents = m.extents := by
  rcases enterEntry_answered setup f args m with hk | ⟨_, r, m', -, -, h, -, himage⟩
  · exact extents_eq hk.memories
  · rw [h]
    exact extents_modify (extent_overwriteFront r.memory) himage

theorem wider_dispatch (setup : Setup) (watch : Breakpoints) (m : Machine) :
    Wider m (m.dispatch setup watch).machine := by
  rcases dispatch_extents setup watch m with h | ⟨-, _, _, _, h⟩
  · exact wider_of_extents h
  · exact h.wider

theorem Paged.dispatch (h : Paged module limits m) (setup : Setup) (watch : Breakpoints) :
    Paged module limits (m.dispatch setup watch).machine := by
  rcases dispatch_extents setup watch m with he | ⟨-, _, _, _, hg⟩
  · exact h.of_extents he
  · exact hg.paged h

theorem Paged.enterEntry (h : Paged module limits m) (setup : Setup) (f : Nat)
    (args : List Value) : Paged module limits (Execution.enterEntry setup f args m).machine :=
  h.of_extents (extents_enterEntry setup f args m)

/-! ## New machines -/

/-- Copying a segment leaves all extents alone. -/
theorem map_extent_initData {globals : Array Value} {memories memories' : Array LinearMemory}
    {segment : DataSegment × Nat} (h : initData globals memories segment = .ok memories') :
    memories'.map LinearMemory.extent = memories.map LinearMemory.extent := by
  unfold initData at h
  simp only at h
  split at h
  · split at h
    · exact absurd h nofun
    · split at h
      · cases h
        refine map_extent_modify _ _ fun memory => congrArg (·, memory.pages, memory.bound) ?_
        show (LinearMemory.writeBytes ..).data.size = memory.bytes.data.size
        rw [Medium.data_writeBytes, Medium.size_fill]
      · exact absurd h nofun
  · exact absurd h nofun

theorem map_extent_foldlM {globals : Array Value} {memories memories' : Array LinearMemory}
    {segments : List (DataSegment × Nat)}
    (h : segments.foldlM (initData globals) memories = .ok memories') :
    memories'.map LinearMemory.extent = memories.map LinearMemory.extent := by
  induction segments generalizing memories with
  | nil =>
    cases h
    rfl
  | cons segment rest ih =>
    rw [List.foldlM_cons, InitError.bind_eq_ok_iff] at h
    obtain ⟨next, hnext, hrest⟩ := h
    rw [ih hrest, map_extent_initData hnext]

theorem bound_ofLimits (s : Storage) (hostPages : Nat) :
    (LinearMemory.ofLimits s.limits hostPages).bound.toNat = s.pageBound hostPages := by
  have hpages : s.pageBound hostPages ≤ maxPages := (min_le_right _ _).trans (min_le_left _ _)
  exact UInt32.toNat_ofNat_of_lt' (hpages.trans_lt (by decide))

/-- Declared limits that are in order leave room for the declared minimum. -/
theorem min_le_pageBound {s : Storage} {hostPages : Nat} (ho : s.limits.Ordered)
    (ha : s.limits.Addressable) (hh : s.limits.min.toNat ≤ hostPages) :
    s.limits.min.toNat ≤ s.pageBound hostPages := by
  refine le_min ?_ (le_min ha.1 hh)
  cases hmax : s.limits.max with
  | none => exact ha.1
  | some max => exact UInt32.le_iff_toNat_le.mp (ho max hmax)

/-- **A new machine keeps to its bounds.** -/
theorem paged_of_instantiate? (hw : module.WellFormed) (h : instantiate? module limits = .ok m) :
    Paged module limits m := by
  obtain ⟨globals, -, blank, hblank, memories, hdata, tables, -, rfl⟩ := instantiate?_eq_ok_iff.mp h
  obtain ⟨hhost, rfl⟩ := mapM_initMemory_eq_ok_iff.mp hblank
  -- the segments have changed bytes only, so the memories may be taken as they were laid out
  let laidOut : Machine :=
    { ip := ⟨0, 0⟩
      stack := .empty limits.maxValueStack
      frames := []
      globals := globals
      memories := module.memories.map fun s => .ofLimits s.limits limits.maxMemoryPages
      tables := tables }
  refine Paged.of_extents (m := laidOut) ?_ ?_
  · refine ⟨Array.size_map .., fun k memory s hk hs => ?_⟩
    rw [Array.getElem?_map, hs] at hk
    cases hk
    obtain ⟨ho, ha⟩ := hw.memories s (Array.mem_of_getElem? hs)
    have hmin := hhost s (Array.mem_toList_iff.mpr (Array.mem_of_getElem? hs))
    exact ⟨LinearMemory.size_ofLimits _ _, min_le_pageBound ho ha hmin, bound_ofLimits s _⟩
  · unfold extents
    rw [map_extent_foldlM hdata, ← List.map_toArray, Array.toArray_toList]

theorem paged_of_reachable (hw : module.WellFormed) (hr : Reachable module limits m) :
    Paged module limits m := by
  induction hr with
  | created h => exact paged_of_instantiate? hw h
  | started bridge _ _ ih | called bridge _ _ ih => exact ih.enterEntry _ _ _
  | dispatched bridge watch _ ih => exact ih.dispatch _ watch

/-! ## Growing -/

/-- Growth that is within the bound, and growth that is not. -/
theorem memoryGrow_cases {memory : LinearMemory} {d : BitVec 32} {rest : List Value}
    (watch : Breakpoints) (hf : m.frames ≠ []) (hi : fetch? setup m.ip = some .memoryGrow)
    (hm : m.memory? = some memory) (hw : memory.WholePages)
    (ho : m.stack.Offers [.i32 d] rest) :
    ∃ m', m.dispatch setup watch = .next m' ∧
      (memory.pages.toNat + d.toNat ≤ memory.bound.toNat →
        ∃ grown, memory.Lengthened d.toNat grown ∧
          m.GoneOn (.i32 memory.pages.toBitVec :: rest) (m.memories.setIfInBounds 0 grown) m') ∧
      (memory.bound.toNat < memory.pages.toNat + d.toNat →
        m.GoneOn (.i32 (-1) :: rest) m.memories m') := by
  have hdelta : (m.stack.peek? 0).bind (Value.asInt? .w32) = some d := by
    rw [ho.peek? 0 rfl]
    rfl
  rw [dispatch_eq_execute hf hi]
  simp only [execute, executeMemoryGrow, hm, hdelta]
  cases hgrow : memory.grow? (.ofBitVec d) with
  | none =>
    have hroom := LinearMemory.grow?_eq_none_iff.mp hgrow
    exact ⟨_, rfl, fun hfits => absurd hroom (Nat.not_lt_of_le hfits), fun _ => goneOn_replace ho _⟩
  | some grown =>
    obtain ⟨hfits, -⟩ := LinearMemory.grow?_eq_some_iff.mp hgrow
    refine ⟨_, rfl, fun _ => ?_, fun hroom => absurd hfits (Nat.not_le_of_lt hroom)⟩
    have hgone := goneOn_replace ho (.i32 memory.pages.toBitVec)
    exact ⟨grown, LinearMemory.lengthened_grow? hgrow hw, hgone.position, hgone.values,
      hgone.floor, hgone.limit, hgone.frames, hgone.globals, rfl, hgone.tables⟩

end Machine

namespace Execution

open Machine

variable {module : Module} {limits : Limitation}

/-- What instructions and entries keep, every sequence of operations keeps. -/
theorem operates_keeps {P : Machine → Prop} {e e' : Execution}
    (h : Relation.ReflTransGen (Operates module limits fun _ => True) e e')
    (hentry : ∀ setup f args m, P m → P (enterEntry setup f args m).machine)
    (hd : ∀ setup watch m, P m → P (m.dispatch setup watch).machine) (he : P e.machine) :
    P e'.machine := by
  induction h with
  | refl => exact he
  | tail _ hstep ih =>
    obtain ⟨bridge, tracing, watch, r, -, hoperation, rfl⟩ := hstep
    exact hoperation.keeps (fun f args m => hentry _ f args m) (fun m => hd _ watch m) ih

/-- **Memories grow in pages, and only by growth.** Take a module that was loaded from bytes. In
every machine that its execution comes to, a memory has as many bytes as its pages say, and no more
pages than its bound allows; no sequence of operations, with any hosts, takes a page away. Growth by
an unsigned number of pages answers with the number of pages before and puts pages of zeros behind
the old bytes if all of them are within the bound, counted without wrapping around; if not it
answers with minus one and nothing changes. No other instruction and no entry from outside changes a
size or a number of pages, imported functions included. -/
theorem memory_grows_in_pages {input : List UInt8} (h : Module.ofBytes? input = .ok module)
    (limits : Limitation) :
    (∀ m, Reachable module limits m → m.Paged module limits) ∧
    (∀ new e e', ofModule? (some module) limits = .ok new →
      Relation.ReflTransGen (Operates module limits fun _ => True) new e →
      Relation.ReflTransGen (Operates module limits fun _ => True) e e' →
      e'.machine.Paged module limits ∧ e.machine.Wider e'.machine) ∧
    (∀ bridge watch m memory s d rest, Reachable module limits m → m.frames ≠ [] →
      fetch? ⟨module, limits, bridge⟩ m.ip = some .memoryGrow → m.memory? = some memory →
      module.memories[0]? = some s → m.stack.Offers [.i32 d] rest →
      ∃ m', m.dispatch ⟨module, limits, bridge⟩ watch = .next m' ∧
        (memory.pages.toNat + d.toNat ≤ s.pageBound limits.maxMemoryPages →
          ∃ grown, memory.Lengthened d.toNat grown ∧
            m.GoneOn (.i32 memory.pages.toBitVec :: rest) (m.memories.setIfInBounds 0 grown) m') ∧
        (s.pageBound limits.maxMemoryPages < memory.pages.toNat + d.toNat →
          m.GoneOn (.i32 (-1) :: rest) m.memories m')) ∧
    ∀ setup m,
      (∀ watch, fetch? setup m.ip ≠ some .memoryGrow →
        (m.dispatch setup watch).machine.extents = m.extents) ∧
      ∀ f args, (enterEntry setup f args m).machine.extents = m.extents := by
  have hw := wellFormed_of_ofBytes? h
  refine ⟨fun m => paged_of_reachable hw, fun new e e' hnew hbefore hrun => ?_,
    fun bridge watch m memory s d rest hr hf hi hm hs ho => ?_, fun setup m => ⟨fun watch hi => ?_,
    fun f args => extents_enterEntry setup f args m⟩⟩
  · have hnew' : new.machine.Paged module limits := paged_of_reachable hw (reachable_ofModule? hnew)
    have hpaged := operates_keeps (P := Paged module limits) (hbefore.trans hrun)
      (fun setup f args m hp => hp.enterEntry setup f args)
      (fun setup watch m hp => hp.dispatch setup watch) hnew'
    have hwider := operates_keeps (P := e.machine.Wider) hrun
      (fun setup f args m hw => hw.trans (wider_of_extents (extents_enterEntry setup f args m)))
      (fun setup watch m hw => hw.trans (wider_dispatch setup watch m)) (.refl e.machine)
    exact ⟨hpaged, hwider⟩
  · obtain ⟨hwhole, -, hbound⟩ := (paged_of_reachable hw hr).pages 0 memory s hm hs
    rw [← hbound]
    exact memoryGrow_cases watch hf hi hm hwhole ho
  · rcases dispatch_extents setup watch m with he | ⟨hgrow, -⟩
    · exact he
    · exact absurd hgrow hi

/-- A memory without a page that may have one, and a function that asks for it. -/
def growingBytes : List UInt8 :=
  [0x00, 0x61, 0x73, 0x6D, 0x01, 0x00, 0x00, 0x00,
   0x01, 0x04, 0x01, 0x60, 0x00, 0x00,
   0x03, 0x02, 0x01, 0x00,
   0x05, 0x04, 0x01, 0x01, 0x00, 0x01,
   0x0A, 0x09, 0x01, 0x07, 0x00, 0x41, 0x01, 0x40, 0x00, 0x1A, 0x0B]

/-- What `growingBytes` spells. -/
def growingModule : Module where
  types := #[⟨[], []⟩]
  functions := #[.defined 0 [] #[.const (.i32 1), .memoryGrow, .drop, .blockEnd]]
  memories := #[⟨⟨0, some 1⟩, none⟩]

theorem ofBytes?_growingBytes : Module.ofBytes? growingBytes = .ok growingModule := by
  have h : (Module.ofBytes? growingBytes).toOption = some growingModule := by decide +kernel
  cases hm : Module.ofBytes? growingBytes <;> simp_all [Except.toOption]

/-- The function, about to ask. -/
def aboutToGrow : Machine where
  ip := ⟨0, 1⟩
  stack := (OperandStack.empty 1048576).restore (.i32 1)
  frames := [⟨0, #[], ⟨0, 0⟩, 0, []⟩]
  globals := #[]
  memories := #[⟨.empty, 0, 1⟩]
  tables := #[]

theorem reachable_aboutToGrow : Reachable growingModule {} aboutToGrow := by
  have hnew : instantiate? growingModule {} =
      .ok { aboutToGrow with ip := ⟨0, 0⟩, stack := .empty 1048576, frames := [] } := by
    unfold instantiate? growingModule
    simp only [List.map_toArray, List.map_nil]
    rfl
  have hcalled : Reachable growingModule {}
      (enterEntry ⟨growingModule, {}, .unavailable⟩ 0 [] _).machine :=
    .called .unavailable (.created hnew) rfl
  exact .dispatched .unavailable {} hcalled

/-- It gets the page. -/
theorem memory_grows_in_pages_growing :
    Module.ofBytes? growingBytes = .ok growingModule ∧ Reachable growingModule {} aboutToGrow ∧
      ∃ m' grown, aboutToGrow.dispatch ⟨growingModule, {}, .unavailable⟩ {} = .next m' ∧
        m'.memories = #[grown] ∧ grown.size = 65536 ∧ grown.pages.toNat = 1 ∧
        m'.stack.values = [.i32 0] := by
  have hgrowth := (memory_grows_in_pages ofBytes?_growingBytes {}).2.2.1
  obtain ⟨m', hnext, hgrow, -⟩ := hgrowth .unavailable {} aboutToGrow ⟨.empty, 0, 1⟩
    ⟨⟨0, some 1⟩, none⟩ 1 [] reachable_aboutToGrow (by decide) rfl rfl rfl ⟨rfl, by decide⟩
  obtain ⟨grown, hlengthened, hgone⟩ := hgrow (by decide)
  exact ⟨ofBytes?_growingBytes, reachable_aboutToGrow, m', grown, hnext, hgone.memories,
    hlengthened.size, hlengthened.pages, hgone.values⟩

end Execution

end WasmDebugger
