/-
# Paths and their components

A path that `splitPath` takes apart to the end is its components joined by slashes, where a
component is a nonempty string without a slash (`IsName`).  `joinPath` puts the components
together; on components it is injective, and `splitPath` undoes it one component at a time.
-/
import HdfStream.Virtual.Model
import Mathlib.Data.List.TakeWhile

namespace HdfStream.Virtual

open Java

/-! ## 1. Components -/

/-- A component of a path. -/
def IsName (name : JString) : Prop := name ≠ [] ∧ '/' ∉ name

/-- The path with these components. -/
def joinPath : List JString → JString
  | [] => []
  | [name] => name
  | name :: names => name ++ '/' :: joinPath names

theorem joinPath_cons {names : List JString} (h : names ≠ []) (name : JString) :
    joinPath (name :: names) = name ++ '/' :: joinPath names := by
  cases names with
  | nil => exact absurd rfl h
  | cons m names => rfl

theorem joinPath_append {names rest : List JString} (h : names ≠ []) (hrest : rest ≠ []) :
    joinPath (names ++ rest) = joinPath names ++ '/' :: joinPath rest := by
  induction names with
  | nil => exact absurd rfl h
  | cons n names ih =>
    by_cases hnames : names = []
    · subst hnames
      exact joinPath_cons hrest n
    · have hcat : names ++ rest ≠ [] := List.append_ne_nil_of_left_ne_nil hnames rest
      rw [List.cons_append, joinPath_cons hcat, ih hnames, joinPath_cons hnames,
        List.append_assoc]
      rfl

theorem endsWith_append_cons (name : JString) {rest : JString} (h : rest ≠ []) :
    endsWith (name ++ '/' :: rest) '/' = endsWith rest '/' := by
  rw [endsWith, endsWith, List.getLast?_append_of_ne_nil _ (List.cons_ne_nil _ _),
    List.getLast?_cons_of_ne_nil h]

theorem joinPath_ne_nil {names : List JString} (h : names ≠ []) (hn : ∀ n ∈ names, IsName n) :
    joinPath names ≠ [] := by
  cases names with
  | nil => exact absurd rfl h
  | cons n names =>
    have hne := (hn n List.mem_cons_self).1
    cases names with
    | nil => exact hne
    | cons m names => exact List.append_ne_nil_of_left_ne_nil hne _

/-- A path does not end with a slash. -/
theorem joinPath_endsWith {names : List JString} (h : names ≠ []) (hn : ∀ n ∈ names, IsName n) :
    endsWith (joinPath names) '/' = false := by
  induction names with
  | nil => exact absurd rfl h
  | cons n names ih =>
    by_cases hrest : names = []
    · subst hrest
      refine beq_false_of_ne fun heq => ?_
      exact (hn n List.mem_cons_self).2 (List.mem_of_getLast? heq)
    · have ih := ih hrest fun m hm => hn m (List.mem_cons_of_mem _ hm)
      have hne := joinPath_ne_nil hrest fun m hm => hn m (List.mem_cons_of_mem _ hm)
      rw [joinPath_cons hrest, endsWith_append_cons _ hne]
      exact ih

/-- A path is split at its slashes. -/
theorem splitOn_joinPath {names : List JString} (hne : names ≠ []) (hn : ∀ n ∈ names, IsName n) :
    (joinPath names).splitOn '/' = names := by
  induction names with
  | nil => exact absurd rfl hne
  | cons n names ih =>
    have hslash := (hn n List.mem_cons_self).2
    by_cases hrest : names = []
    · subst hrest
      exact List.splitOn_eq_singleton hslash
    · rw [joinPath_cons hrest, List.splitOn_append_cons_self_of_not_mem hslash,
        ih hrest fun m hm => hn m (List.mem_cons_of_mem _ hm)]

/-! ## 2. `splitPath` -/

theorem takeWhile_name {name : JString} (h : '/' ∉ name) (rest : JString) :
    (name ++ '/' :: rest).takeWhile (· ≠ '/') = name ∧
      (name ++ '/' :: rest).dropWhile (· ≠ '/') = '/' :: rest := by
  have hall : ∀ c ∈ name, decide (c ≠ '/') = true := fun c hc =>
    decide_eq_true fun heq => h (heq ▸ hc)
  rw [List.takeWhile_append_of_pos hall, List.dropWhile_append_of_pos hall]
  exact ⟨List.append_nil name, rfl⟩

/-- What `splitPath` accepts. -/
theorem splitPath_ok {path r : JString} {o : Option JString} (h : splitPath path = .ok (o, r)) :
    match o with
    | none => path = r ∧ IsName r
    | some name => path = name ++ '/' :: r ∧ IsName name ∧ r ≠ [] := by
  unfold splitPath at h
  split at h
  · cases h
  rename_i hne
  split at h
  · cases h
  split at h
  · cases h
  have hcat := List.takeWhile_append_dropWhile (p := fun c => decide (c ≠ '/')) (l := path)
  have hname : '/' ∉ path.takeWhile (fun c => decide (c ≠ '/')) := fun hmem => by
    have := List.mem_takeWhile_imp hmem
    exact absurd rfl (of_decide_eq_true this)
  split at h
  · rename_i first hfirst hdrop
    split at h
    · cases h
    cases h
    rw [hdrop, List.append_nil] at hcat
    refine ⟨hcat.symm, ?_, hname⟩
    rw [hcat]
    exact fun hnil => hne (by rw [hnil]; rfl)
  · rename_i first c rest hdrop
    split at h
    · cases h
    rename_i hfirst
    split at h
    · cases h
    rename_i hrest
    cases h
    have hc : c = '/' := by
      have hhead := List.head?_dropWhile_not (fun c => decide (c ≠ '/')) path
      rw [hdrop] at hhead
      simpa using hhead
    subst hc
    rw [hdrop] at hcat
    refine ⟨hcat.symm, ⟨fun hnil => hfirst (by rw [hnil]; rfl), hname⟩, ?_⟩
    exact fun hnil => hrest (by rw [hnil]; rfl)

theorem splitPath_name {name : JString} (h : IsName name) : splitPath name = .ok (none, name) := by
  have hall : ∀ c ∈ name, decide (c ≠ '/') = true := fun c hc =>
    decide_eq_true fun heq => h.2 (heq ▸ hc)
  have hlen : ¬ name.length = 0 := fun h0 => h.1 (List.length_eq_zero_iff.mp h0)
  have hstart : startsWith name '/' = false :=
    beq_false_of_ne fun heq => h.2 (List.mem_of_head? heq)
  have hend : endsWith name '/' = false :=
    beq_false_of_ne fun heq => h.2 (List.mem_of_getLast? heq)
  unfold splitPath
  rw [if_neg hlen, if_neg (by rw [hstart]; decide), if_neg (by rw [hend]; decide),
    List.takeWhile_eq_self_iff.mpr hall, List.dropWhile_eq_nil_iff.mpr hall]
  exact if_neg hlen

theorem splitPath_cons {name rest : JString} (h : IsName name) (hrest : rest ≠ [])
    (hend : endsWith rest '/' = false) :
    splitPath (name ++ '/' :: rest) = .ok (some name, rest) := by
  obtain ⟨htake, hdrop⟩ := takeWhile_name h.2 rest
  have hlen : ¬ name.length = 0 := fun h0 => h.1 (List.length_eq_zero_iff.mp h0)
  have hlen' : ¬ rest.length = 0 := fun h0 => hrest (List.length_eq_zero_iff.mp h0)
  have hstart : startsWith (name ++ '/' :: rest) '/' = false := by
    refine beq_false_of_ne fun heq => ?_
    rw [List.head?_append_of_ne_nil _ h.1] at heq
    exact h.2 (List.mem_of_head? heq)
  unfold splitPath
  rw [if_neg (by simp only [List.length_append, List.length_cons]; omega),
    if_neg (by rw [hstart]; decide), if_neg (by rw [endsWith_append_cons _ hrest, hend]; decide),
    htake, hdrop]
  exact (if_neg hlen).trans (if_neg hlen')

/-- `splitPath` takes the first component off a path. -/
theorem splitPath_joinPath {name : JString} {names : List JString} (h : IsName name)
    (hne : names ≠ []) (hn : ∀ n ∈ names, IsName n) :
    splitPath (joinPath (name :: names)) = .ok (some name, joinPath names) := by
  rw [joinPath_cons hne]
  exact splitPath_cons h (joinPath_ne_nil hne hn) (joinPath_endsWith hne hn)

/-! ## 3. One path inside another -/

theorem name_append_inj {n m r s : JString} (hn : '/' ∉ n) (hm : '/' ∉ m)
    (h : n ++ '/' :: r = m ++ '/' :: s) : n = m ∧ r = s := by
  have hnm : n = m := by
    rw [← (takeWhile_name hn r).1, h, (takeWhile_name hm s).1]
  subst hnm
  exact ⟨rfl, List.tail_eq_of_cons_eq (List.append_cancel_left h)⟩

/-- The directory `dir` is on the way to `path`, or is `path`. -/
def OnPath (dir path : JString) : Prop := dir = path ∨ dir ++ ['/'] <+: path

theorem joinPath_slash {names : List JString} (h : names ≠ []) :
    joinPath names ++ ['/'] = names.flatMap (· ++ ['/']) := by
  induction names with
  | nil => exact absurd rfl h
  | cons n names ih =>
    by_cases hnames : names = []
    · subst hnames
      simp only [joinPath, List.flatMap_cons, List.flatMap_nil, List.append_nil]
    · rw [joinPath_cons hnames, List.flatMap_cons, ← ih hnames, List.append_assoc,
        List.append_assoc]
      rfl

theorem prefix_of_flatMap {names ls : List JString} (hn : ∀ n ∈ names, IsName n)
    (hl : ∀ n ∈ ls, IsName n) {x : JString}
    (h : names.flatMap (· ++ ['/']) = ls.flatMap (· ++ ['/']) ++ x) : ls <+: names := by
  induction ls generalizing names with
  | nil => exact List.nil_prefix
  | cons l ls ih =>
    rw [List.flatMap_cons, List.append_assoc, List.append_assoc] at h
    cases names with
    | nil => exact absurd h.symm (List.append_ne_nil_of_left_ne_nil (hl l List.mem_cons_self).1 _)
    | cons n names =>
      rw [List.flatMap_cons, List.append_assoc] at h
      obtain ⟨rfl, hrest⟩ := name_append_inj (hn n List.mem_cons_self).2
        (hl l List.mem_cons_self).2 h
      exact List.cons_prefix_cons.mpr ⟨rfl, ih (fun m hm => hn m (List.mem_cons_of_mem _ hm))
        (fun m hm => hl m (List.mem_cons_of_mem _ hm)) hrest⟩

/-- **A path is on the way to another** if its components are the first ones of the other. -/
theorem onPath_joinPath {names ls : List JString} (hne : names ≠ []) (hls : ls ≠ [])
    (hn : ∀ n ∈ names, IsName n) (hl : ∀ n ∈ ls, IsName n) :
    OnPath (joinPath ls) (joinPath names) ↔ ls <+: names := by
  constructor
  · rintro (heq | ⟨rest, hrest⟩)
    · refine prefix_of_flatMap hn hl ?_ (x := [])
      rw [← joinPath_slash hne, ← joinPath_slash hls, heq, List.append_nil]
    · refine prefix_of_flatMap hn hl ?_ (x := rest ++ ['/'])
      rw [← joinPath_slash hne, ← joinPath_slash hls, ← hrest, List.append_assoc, List.append_assoc]
  · rintro ⟨rest, rfl⟩
    by_cases hrest : rest = []
    · subst hrest
      rw [List.append_nil]
      exact .inl rfl
    · refine .inr ⟨joinPath rest, ?_⟩
      rw [joinPath_append hls hrest, List.append_assoc]
      rfl

theorem joinPath_inj {names ls : List JString} (hne : names ≠ []) (hls : ls ≠ [])
    (hn : ∀ n ∈ names, IsName n) (hl : ∀ n ∈ ls, IsName n) (h : joinPath names = joinPath ls) :
    names = ls := by
  have h1 := (onPath_joinPath hne hls hn hl).mp (.inl h.symm)
  have h2 := (onPath_joinPath hls hne hl hn).mp (.inl h)
  exact h2.eq_of_length_le h1.length_le

end HdfStream.Virtual
