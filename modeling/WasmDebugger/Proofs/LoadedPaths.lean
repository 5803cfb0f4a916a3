import WasmDebugger.Program

/-!
# Which file a line loads

A path is cut into words on its way to the session, and the words are put together again with single
blanks.

* `SingleSpaced`: words with single blanks between them.
* `wordsOf_intercalate`, `intercalate_wordsOf_iff`: both ways are inverse on such texts.
* `Shell.Asks`: the file that a line asks for.
* `Options.positionals`: the arguments that are neither options nor values of options.
* **`named_path_asked_iff`**: the file that is asked for is the named one if and only if its path
  is single-spaced.
-/

namespace WasmDebugger

variable {text letters rest : List Char} {ws : List String} {w p q line : String} {sep : Char}

/-! ## Words -/

/-- The word that some letters spell: one or more of them, and no white space. -/
def IsWord (letters : List Char) : Prop := letters ≠ [] ∧ ∀ c ∈ letters, Octets.isSpace c = false

theorem isWord_iff (letters : List Char) :
    (!letters.isEmpty && letters.all fun c => !Octets.isSpace c) = true ↔ IsWord letters := by
  simp [IsWord]

instance (letters : List Char) : Decidable (IsWord letters) :=
  decidable_of_iff _ (isWord_iff letters)

/-- **One word, or several with single blanks between them.** -/
inductive SingleSpaced : List Char → Prop where
  | word {letters : List Char} (h : IsWord letters) : SingleSpaced letters
  | more {letters rest : List Char} (h : IsWord letters) (hrest : SingleSpaced rest) :
      SingleSpaced (letters ++ ' ' :: rest)

theorem wordsFrom_append (h : ∀ c ∈ text, Octets.isSpace c = false) (letters rest : List Char) :
    wordsFrom letters (text ++ rest) = wordsFrom (text.reverse ++ letters) rest := by
  induction text generalizing letters with
  | nil => rfl
  | cons c text ih =>
    obtain ⟨hc, htext⟩ := List.forall_mem_cons.mp h
    rw [List.cons_append, wordsFrom, if_neg (by simp [hc]), ih htext]
    simp

/-- A word ends at the next white space. -/
theorem wordsFrom_word (h : IsWord text) (hsep : Octets.isSpace sep = true) (rest : List Char) :
    wordsFrom [] (text ++ sep :: rest) = String.ofList text :: wordsFrom [] rest := by
  rw [wordsFrom_append h.2, List.append_nil, wordsFrom, if_pos hsep, if_neg (by simpa using h.1),
    List.reverse_reverse]

/-- The last word ends with the text. -/
theorem wordsFrom_last (h : IsWord text) : wordsFrom [] text = [String.ofList text] := by
  have happend := wordsFrom_append h.2 [] []
  rw [List.append_nil, List.append_nil] at happend
  rw [happend, wordsFrom, if_neg (by simpa using h.1), List.reverse_reverse]

theorem isWord_of_mem_wordsFrom (h : ∀ c ∈ letters, Octets.isSpace c = false)
    (hw : w ∈ wordsFrom letters text) : IsWord w.toList := by
  induction text generalizing letters with
  | nil =>
    unfold wordsFrom at hw
    split at hw
    · cases hw
    · rename_i hne
      rw [List.mem_singleton.mp hw, String.toList_ofList]
      exact ⟨by simpa using hne, fun c hc => h c (List.mem_reverse.mp hc)⟩
  | cons c text ih =>
    unfold wordsFrom at hw
    split at hw
    · split at hw
      · exact ih (by simp) hw
      · rename_i hne
        rcases List.mem_cons.mp hw with rfl | hw
        · rw [String.toList_ofList]
          exact ⟨by simpa using hne, fun c hc => h c (List.mem_reverse.mp hc)⟩
        · exact ih (by simp) hw
    · rename_i hc
      exact ih (List.forall_mem_cons.mpr ⟨by simpa using hc, h⟩) hw

theorem isWord_of_mem_wordsOf (hw : w ∈ wordsOf p) : IsWord w.toList :=
  isWord_of_mem_wordsFrom (by simp) hw

/-! ## Words put together -/

theorem singleSpaced_intercalate (h : ∀ w ∈ ws, IsWord w.toList) (hne : ws ≠ []) :
    SingleSpaced (" ".intercalate ws).toList := by
  induction ws with
  | nil => exact absurd rfl hne
  | cons w ws ih =>
    obtain ⟨hw, hws⟩ := List.forall_mem_cons.mp h
    cases ws with
    | nil => exact .word hw
    | cons w' ws =>
      rw [String.intercalate_cons_cons, String.append_assoc, String.toList_append,
        String.toList_append]
      exact .more hw (ih hws (List.cons_ne_nil _ _))

/-- **Words that are put together are found again.** -/
theorem wordsOf_intercalate (h : ∀ w ∈ ws, IsWord w.toList) :
    wordsOf (" ".intercalate ws) = ws := by
  induction ws with
  | nil => rfl
  | cons w ws ih =>
    obtain ⟨hw, hws⟩ := List.forall_mem_cons.mp h
    unfold wordsOf at ih ⊢
    cases ws with
    | nil => rw [String.intercalate_singleton, wordsFrom_last hw, String.ofList_toList]
    | cons w' ws =>
      rw [String.intercalate_cons_cons, String.append_assoc, String.toList_append,
        String.toList_append]
      show wordsFrom [] (w.toList ++ ' ' :: (" ".intercalate (w' :: ws)).toList) = _
      rw [wordsFrom_word hw rfl, ih hws, String.ofList_toList]

theorem SingleSpaced.wordsFrom_ne_nil (h : SingleSpaced text) : wordsFrom [] text ≠ [] := by
  cases h with
  | word h => simp [wordsFrom_last h]
  | more h _ =>
    rw [wordsFrom_word h rfl]
    exact List.cons_ne_nil _ _

/-- **A text that is single-spaced consists of its words**, with blanks between them. -/
theorem SingleSpaced.intercalate_wordsFrom (h : SingleSpaced text) :
    " ".intercalate (wordsFrom [] text) = String.ofList text := by
  induction h with
  | word h => rw [wordsFrom_last h, String.intercalate_singleton]
  | @more letters rest h hrest ih =>
    have hblank : String.ofList (' ' :: rest) = " " ++ String.ofList rest :=
      @String.ofList_append [' '] rest
    rw [wordsFrom_word h rfl, String.intercalate_cons_of_ne_nil hrest.wordsFrom_ne_nil, ih,
      String.append_assoc, String.ofList_append, hblank]

/-- **Taking a text apart and putting it together gives it back if and only if it is
single-spaced**, or there is nothing in it. -/
theorem intercalate_wordsOf_iff (hne : wordsOf p ≠ []) :
    " ".intercalate (wordsOf p) = p ↔ SingleSpaced p.toList := by
  constructor
  · intro h
    rw [← h]
    exact singleSpaced_intercalate (fun _ => isWord_of_mem_wordsOf) hne
  · intro h
    exact h.intercalate_wordsFrom.trans String.ofList_toList

/-! ## Lines -/

namespace Shell

/-- The line asks for the file under a path. -/
def Asks (line path : String) : Prop := (Line.parse line).path? = some path

/-- The line that names a path behind one separator. -/
def loadLine (sep : Char) (path : String) : String := "load" ++ String.singleton sep ++ path

theorem parse_loadLine (hsep : Octets.isSpace sep = true) (p : String) :
    Line.parse (loadLine sep p) = .command .load (wordsOf p) := by
  have hload : IsWord "load".toList := by decide
  have hwords : wordsOf (loadLine sep p) = "load" :: wordsOf p := by
    unfold wordsOf loadLine
    rw [String.append_assoc, String.toList_append, String.toList_append, String.toList_singleton]
    exact wordsFrom_word hload hsep p.toList
  unfold Line.parse
  rw [hwords]
  rfl

theorem asks_loadLine_iff (hsep : Octets.isSpace sep = true) :
    Asks (loadLine sep p) q ↔ wordsOf p ≠ [] ∧ q = " ".intercalate (wordsOf p) := by
  unfold Asks
  rw [parse_loadLine hsep]
  show loadPath? (wordsOf p) = some q ↔ _
  unfold loadPath?
  by_cases hnone : wordsOf p = []
  · simp [hnone]
  · rw [if_neg (by simpa using hnone), Option.some.injEq]
    exact ⟨fun h => ⟨hnone, h.symm⟩, fun h => h.2.symm⟩

/-- **What a line asks for is loaded**, as if its path were the one argument. -/
theorem react_of_asks (h : Asks line q) (fuel : Nat) (files : Files) (s : Session) :
    react fuel files s (Line.parse line) = load files [q] s := by
  unfold Asks Line.path? at h
  split at h
  · rename_i args hparse
    rw [hparse]
    show load files args s = load files [q] s
    have hone : loadPath? [q] = some q := by simp [loadPath?]
    unfold load
    rw [h, hone]
  · cases h

/-- A single line is carried out, whether it ends the session or not. -/
theorem reactions_of_line (fuel : Nat) (files : Files) (sh : Shell) (line : String) :
    (run fuel files sh [line]).2 = [react fuel files sh.session (Line.parse line)] := by
  simp only [run, execute]
  exact congrArg Prod.snd (ite_self _)

end Shell

/-! ## Arguments -/

namespace Options

variable {o o' : Options} {args : List String} {arg text : String} {option : ValueOption}

/-- The arguments that are neither options nor values of options. -/
def positionals : List String → List String
  | [] => []
  | arg :: rest =>
    match valueOption? arg, rest with
    | some _, [] => []
    | some _, _ :: rest => positionals rest
    | none, rest =>
      if arg.toList.head? = some '-' then positionals rest else arg :: positionals rest

theorem filePath_of_setValue (h : o.setValue text option = .ok o') : o'.filePath = o.filePath := by
  unfold setValue at h
  split at h
  · split at h
    · cases h
    · split at h <;> cases h
      rfl
  · split at h <;> cases h
    rfl
  · cases h
    rfl

/-- An argument that stands for itself is an option, or the first path. -/
theorem setSingle_cases (h : o.setSingle arg = .ok o') :
    o'.filePath = o.filePath ∧ arg.toList.head? = some '-' ∨
      o.filePath = "" ∧ o'.filePath = arg ∧ arg.toList.head? ≠ some '-' := by
  unfold setSingle at h
  split at h
  · rename_i hhelp
    cases h
    refine Or.inl ⟨rfl, ?_⟩
    rcases (by simpa using hhelp : arg = "-h" ∨ arg = "--help") with rfl | rfl <;> rfl
  · split at h
    · rename_i hversion
      cases h
      exact Or.inl ⟨rfl, by rw [hversion]; rfl⟩
    · split at h
      · rename_i htrace
        cases h
        exact Or.inl ⟨rfl, by rw [htrace]; rfl⟩
      · split at h
        · cases h
        · rename_i hsign
          split at h
          · rename_i hnone
            cases h
            exact Or.inr ⟨by simpa using hnone, rfl, hsign⟩
          · cases h

theorem positionals_of_value (h : valueOption? arg = some option) (text : String)
    (rest : List String) : positionals (arg :: text :: rest) = positionals rest := by
  rw [positionals.eq_def]
  simp only [h]

theorem positionals_of_single (h : valueOption? arg = none) (rest : List String) :
    positionals (arg :: rest) =
      if arg.toList.head? = some '-' then positionals rest else arg :: positionals rest := by
  simp only [positionals, h]

/-- **The path is the only one that the arguments name**, and there is none if they name none. -/
theorem filter_positionals_of_parse (h : o.parse args = (o', none)) :
    (o.filePath :: positionals args).filter (· ≠ "") = [o'.filePath].filter (· ≠ "") := by
  fun_induction parse o args with
  | case1 o =>
    cases h
    rfl
  | case2 | case4 | case5 => cases h
  | case3 o arg rest hvalue o₁ hsingle ih =>
    rw [← ih h, positionals_of_single hvalue]
    rcases setSingle_cases hsingle with ⟨hpath, hsign⟩ | ⟨hnone, hpath, hsign⟩
    · rw [if_pos hsign, hpath]
    · rw [if_neg hsign, hnone, hpath]
      simp
  | case6 o arg option text rest hvalue o₁ hset ih =>
    rw [← ih h, positionals_of_value hvalue, filePath_of_setValue hset]

end Options

/-- The program begins with the line for the path that its arguments name. -/
theorem Program.loadLine?_of_plan {env? : String → Option String} {args : List String} {o : Options}
    (h : Program.plan env? args = .debug o) (hp : p ∈ Options.positionals args) (hne : p ≠ "") :
    Program.loadLine? o = some (Shell.loadLine ' ' p) := by
  unfold Program.plan at h
  simp only at h
  split at h
  · cases h
  · rename_i o' hparse
    split at h
    · cases h
    · split at h
      · cases h
      · cases h
        have hfilter := Options.filter_positionals_of_parse hparse
        have hmem : p ∈ [o.filePath].filter (· ≠ "") := by
          rw [← hfilter]
          exact List.mem_filter.mpr ⟨List.mem_cons_of_mem _ hp, by simpa using hne⟩
        obtain rfl : p = o.filePath := List.mem_singleton.mp (List.mem_filter.mp hmem).1
        unfold Program.loadLine?
        rw [if_neg (by simpa using hne)]
        rfl

/-! ## Named paths -/

/-- **The file that is asked for is the named one if and only if its path is single-spaced**: it
consists of words with single blanks between them.

* A line of `load`, one separator and a text asks for the words of the text with single blanks
  between them, and for nothing if there are none.
* So two texts lead to the same file if and only if they have the same words.
* What is asked for is loaded as if it were the one argument.
* The program begins with such a line for the path that its arguments name, and with nothing
  else. -/
theorem named_path_asked_iff (p : String) :
    (∀ sep : Char, Octets.isSpace sep = true →
      (∀ q, Shell.Asks (Shell.loadLine sep p) q ↔
        wordsOf p ≠ [] ∧ q = " ".intercalate (wordsOf p)) ∧
      (Shell.Asks (Shell.loadLine sep p) p ↔ SingleSpaced p.toList)) ∧
    (∀ (sep sep' : Char) (p' q : String), Octets.isSpace sep = true → Octets.isSpace sep' = true →
      Shell.Asks (Shell.loadLine sep p) q →
        (Shell.Asks (Shell.loadLine sep' p') q ↔ wordsOf p' = wordsOf p)) ∧
    (∀ line : String, Shell.Asks line p → ∀ fuel files s,
      Shell.react fuel files s (Line.parse line) = Shell.load files [p] s) ∧
    ∀ env? args o, Program.plan env? args = .debug o → p ∈ Options.positionals args → p ≠ "" →
      Program.loadLine? o = some (Shell.loadLine ' ' p) ∧
      ∀ q, Shell.Asks (Shell.loadLine ' ' p) q → ∀ fuel files sh,
        (Shell.run fuel files sh (Program.loadLine? o).toList).2 =
          [Shell.load files [q] sh.session] := by
  refine ⟨fun sep hsep => ⟨fun q => Shell.asks_loadLine_iff hsep, ?_⟩,
    fun sep sep' p' q hsep hsep' h => ?_, ?_, ?_⟩
  · rw [Shell.asks_loadLine_iff hsep]
    constructor
    · rintro ⟨hne, hp⟩
      exact (intercalate_wordsOf_iff hne).mp hp.symm
    · intro h
      have hne : wordsOf p ≠ [] := h.wordsFrom_ne_nil
      exact ⟨hne, ((intercalate_wordsOf_iff hne).mpr h).symm⟩
  · obtain ⟨hne, rfl⟩ := (Shell.asks_loadLine_iff hsep).mp h
    rw [Shell.asks_loadLine_iff hsep']
    constructor
    · rintro ⟨-, hsame⟩
      have hwords := congrArg wordsOf hsame
      rw [wordsOf_intercalate fun _ => isWord_of_mem_wordsOf,
        wordsOf_intercalate fun _ => isWord_of_mem_wordsOf] at hwords
      exact hwords.symm
    · intro hwords
      rw [hwords]
      exact ⟨hne, rfl⟩
  · exact fun line h fuel files s => Shell.react_of_asks h fuel files s
  · intro env? args o h hp hne
    have hline := Program.loadLine?_of_plan h hp hne
    refine ⟨hline, fun q hq fuel files sh => ?_⟩
    rw [hline, Option.toList_some, Shell.reactions_of_line, Shell.react_of_asks hq]

/-- Options that load the file of a path first. -/
def Options.loading (path : String) : Options where filePath := path

/-- The program loads a path with one blank in it, and so does a line with a tab in front of it. -/
theorem named_path_asked_iff_blank :
    Program.plan (fun _ => none) ["my dir/a.wasm"] = .debug (.loading "my dir/a.wasm") ∧
      "my dir/a.wasm" ∈ Options.positionals ["my dir/a.wasm"] ∧
      (∀ fuel files sh,
        (Shell.run fuel files sh (Program.loadLine? (.loading "my dir/a.wasm")).toList).2 =
          [Shell.load files ["my dir/a.wasm"] sh.session]) ∧
      Octets.isSpace '\t' = true ∧ SingleSpaced "my dir/a.wasm".toList ∧
      Shell.Asks (Shell.loadLine '\t' "my dir/a.wasm") "my dir/a.wasm" := by
  have hplan : Program.plan (fun _ => none) ["my dir/a.wasm"] =
      .debug (.loading "my dir/a.wasm") := rfl
  have hspaced : SingleSpaced "my dir/a.wasm".toList :=
    @SingleSpaced.more ['m', 'y'] "dir/a.wasm".toList (by decide)
      (.word (by decide))
  obtain ⟨hnamed, -, -, hprogram⟩ := named_path_asked_iff "my dir/a.wasm"
  have hasks := (hnamed ' ' rfl).2.mpr hspaced
  have hmem : "my dir/a.wasm" ∈ Options.positionals ["my dir/a.wasm"] := by decide
  exact ⟨hplan, hmem, (hprogram _ _ _ hplan hmem (by decide)).2 _ hasks, rfl, hspaced,
    (hnamed '\t' rfl).2.mpr hspaced⟩

/-- **A file that is not the named one**: of two blanks in a path one is lost on the way, and two
paths lead to the same file. -/
theorem doubled_blank_lost :
    Program.plan (fun _ => none) ["a  b.wasm"] = .debug (.loading "a  b.wasm") ∧
      Program.loadLine? (.loading "a  b.wasm") = some "load a  b.wasm" ∧
      ¬ Shell.Asks "load a  b.wasm" "a  b.wasm" ∧
      Shell.Asks "load a  b.wasm" "a b.wasm" ∧ Shell.Asks "load a b.wasm" "a b.wasm" := by
  refine ⟨rfl, by decide, ?_, ?_, ?_⟩ <;> unfold Shell.Asks <;> decide

end WasmDebugger
