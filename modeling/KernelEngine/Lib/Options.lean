import Mathlib.Data.List.Basic

namespace KernelEngine.Options

/-- What a program makes of an entry of its argument vector: an option that takes the entry
behind it as its value, one that stands alone, or one that ends the reading. -/
inductive Role (α C : Type*) where
  | value (set : α → C → C)
  | flag (set : C → C)
  | stop

def Role.takesValue {α C : Type*} : Role α C → Bool
  | .value _ => true
  | .flag _ | .stop => false

/-- An option with its value, or an entry by itself. -/
inductive Item (α : Type*) where
  | pair (name value : α)
  | lone (name : α)

variable {α C F : Type*}

def Item.entries : Item α → List α
  | .pair name value => [name, value]
  | .lone name => [name]

/-- The loop over positions. An option at the end of the vector has no value to take. -/
def scan (role : α → Role α C) (args : List α) (i : ℕ) (c : C) : Option C :=
  if h : i < args.length then
    match role args[i] with
    | .value set =>
      if h' : i + 1 < args.length then scan role args (i + 2) (set args[i + 1] c)
      else scan role args (i + 1) c
    | .flag set => scan role args (i + 1) (set c)
    | .stop => none
  else some c
termination_by args.length - i

/-- How a vector falls apart when some names take the entry behind them. -/
def items (takes : α → Bool) : List α → List (Item α)
  | [] => []
  | [a] => [.lone a]
  | a :: b :: rest =>
    if takes a then .pair a b :: items takes rest else .lone a :: items takes (b :: rest)

/-- What an item does to a configuration, unless it ends the reading. -/
def Item.act (role : α → Role α C) (item : Item α) (c : C) : Option C :=
  match item with
  | .pair name value =>
    match role name with
    | .value set => some (set value c)
    | .flag _ | .stop => none
  | .lone name =>
    match role name with
    | .value _ => some c
    | .flag set => some (set c)
    | .stop => none

/-- What the last entry of a list that tells something tells, or the default. -/
def lastTold {β : Type*} (tells : β → Option F) (l : List β) (default : F) : F :=
  (l.filterMap tells).getLast?.getD default

def oneOf [DecidableEq α] (names : List α) (name : α) : Bool := name ∈ names

/-- What is told by the value behind one of some names. -/
def valueOf [DecidableEq α] (names : List α) (read : α → F) : Item α → Option F
  | .pair name value => if oneOf names name then some (read value) else none
  | .lone _ => none

theorem oneOf_iff [DecidableEq α] {names : List α} {name : α} :
    oneOf names name = true ↔ name ∈ names := decide_eq_true_iff

section Items

variable {takes : α → Bool} {a b : α} {rest l : List α}

theorem items_pair (h : takes a = true) :
    items takes (a :: b :: rest) = .pair a b :: items takes rest := by
  rw [items, if_pos h]

theorem items_lone (h : takes a = false) :
    items takes (a :: rest) = .lone a :: items takes rest := by
  cases rest with
  | nil => rfl
  | cons b rest => rw [items, if_neg (by simp [h])]

/-- A list of options, written one after another, falls apart into them again. -/
theorem items_flatMap {γ : Type*} (f : γ → Item α) (hpair : ∀ g name value, f g = .pair name value →
    takes name = true) (hlone : ∀ g name, f g = .lone name → takes name = false) (l : List γ) :
    items takes (l.flatMap fun g => (f g).entries) = l.map f := by
  induction l with
  | nil => rfl
  | cons g l ih =>
    rw [List.flatMap_cons, List.map_cons, ← ih]
    cases hg : f g with
    | pair name value => exact items_pair (hpair g name value hg)
    | lone name => exact items_lone (hlone g name hg)

/-- Nothing is left out and nothing is changed. -/
theorem flatMap_entries_items (takes : α → Bool) (l : List α) :
    (items takes l).flatMap Item.entries = l := by
  fun_induction items takes l with
  | case1 => rfl
  | case2 a => rfl
  | case3 a b rest h ih =>
    rw [List.flatMap_cons, ih]
    rfl
  | case4 a b rest h ih =>
    rw [List.flatMap_cons, ih]
    rfl

/-- What stands alone is an entry. -/
theorem mem_of_lone_mem_items (h : .lone a ∈ items takes l) : a ∈ l := by
  rw [← flatMap_entries_items takes l]
  exact List.mem_flatMap.mpr ⟨_, h, List.mem_singleton_self a⟩

end Items

section Told

variable {β γ : Type*} {tells : β → Option F} {b : β} {l : List β} {default : F}

theorem lastTold_nil : lastTold tells [] default = default := rfl

/-- The first entry only changes what the others start from. -/
theorem lastTold_cons :
    lastTold tells (b :: l) default = lastTold tells l ((tells b).getD default) := by
  rw [lastTold, lastTold, List.filterMap_cons]
  cases tells b with
  | none => rfl
  | some value => simp [List.getLast?_cons]

theorem lastTold_map (f : γ → β) (l : List γ) :
    lastTold tells (l.map f) default = lastTold (tells ∘ f) l default := by
  rw [lastTold, lastTold, List.filterMap_map]

end Told

section Scan

variable {role : α → Role α C} {takes : α → Bool} {args : List α} {i : ℕ} {c : C}

/-- The loop reads the vector from a position on as its items, one after another. -/
theorem scan_eq_foldlM (htakes : ∀ a, (role a).takesValue = takes a) (args : List α) (i : ℕ)
    (c : C) : scan role args i c =
      (items takes (args.drop i)).foldlM (fun c item => item.act role c) c := by
  fun_induction scan role args i c with
  | case1 i c h set hrole h' ih =>
    have htake : takes args[i] = true := by rw [← htakes, hrole]; rfl
    rw [List.drop_eq_getElem_cons h, List.drop_eq_getElem_cons h', items_pair htake,
      List.foldlM_cons, ih]
    simp only [Item.act, hrole]
    rfl
  | case2 i c h set hrole h' ih =>
    have hend : args.drop (i + 1) = [] := List.drop_eq_nil_of_le (Nat.not_lt.mp h')
    rw [List.drop_eq_getElem_cons h, hend, items, List.foldlM_cons, ih, hend]
    simp only [Item.act, hrole]
    rfl
  | case3 i c h set hrole ih =>
    have htake : takes args[i] = false := by rw [← htakes, hrole]; rfl
    rw [List.drop_eq_getElem_cons h, items_lone htake, List.foldlM_cons, ih]
    simp only [Item.act, hrole]
    rfl
  | case4 i c h hrole =>
    have htake : takes args[i] = false := by rw [← htakes, hrole]; rfl
    rw [List.drop_eq_getElem_cons h, items_lone htake, List.foldlM_cons]
    simp only [Item.act, hrole]
    rfl
  | case5 i c h =>
    rw [List.drop_eq_nil_of_le (Nat.not_lt.mp h)]
    rfl

/-- The rule for a loop over options: where each item does to a configuration what it tells, or
ends the reading, so do all of them. -/
theorem scan_told (htakes : ∀ a, (role a).takesValue = takes a) (stops : Item α → Bool)
    (told : List (Item α) → C → C) (hnil : ∀ c, told [] c = c)
    (hcons : ∀ item l c, told (item :: l) c = told l (told [item] c))
    (hpair : ∀ name value c, takes name = true →
      (Item.pair name value).act role c =
        if stops (.pair name value) then none else some (told [.pair name value] c))
    (hlone : ∀ name c, (Item.lone name).act role c =
      if stops (.lone name) then none else some (told [.lone name] c)) (args : List α) (i : ℕ)
    (c : C) : scan role args i c =
      if (items takes (args.drop i)).any stops then none
      else some (told (items takes (args.drop i)) c) := by
  rw [scan_eq_foldlM htakes]
  have hturn (item : Item α) (l : List (Item α))
      (hact : ∀ c, item.act role c = if stops item then none else some (told [item] c))
      (ih : ∀ c, l.foldlM (fun c item => item.act role c) c =
        if l.any stops then none else some (told l c)) (c : C) :
      (item :: l).foldlM (fun c item => item.act role c) c =
        if (item :: l).any stops then none else some (told (item :: l) c) := by
    rw [List.foldlM_cons, hact, List.any_cons, hcons item l]
    cases stops item with
    | true => rfl
    | false => exact ih _
  generalize args.drop i = l
  clear i
  fun_induction items takes l generalizing c with
  | case1 => exact congrArg some (hnil c).symm
  | case2 a => exact hturn _ [] (hlone a) (fun c => congrArg some (hnil c).symm) c
  | case3 a b rest h ih => exact hturn _ _ (fun c => hpair a b c h) ih c
  | case4 a b rest h ih => exact hturn _ _ (hlone a) ih c

end Scan

end KernelEngine.Options
