import Mathlib.Data.List.Basic

/-!
# Paths

A path is bytes, and its components are what lies between its slashes.  Empty
components and `.` are skipped, and `..` goes back; at the root it is skipped, and
in front of a relative path it stays.  A folder is named by a path that ends
with a slash.
-/

namespace DartSync
namespace Foundation

namespace Paths

def dotDot : List UInt8 := [46, 46]

def components : List UInt8 -> List (List UInt8)
  | [] => [[]]
  | b :: rest =>
      if b = 47 then [] :: components rest
      else
        match components rest with
        | [] => [[b]]
        | c :: cs => (b :: c) :: cs

/-- One component; the stack has the last component first. -/
def walkStep (absolute : Bool) (stack : List (List UInt8)) (c : List UInt8) :
    List (List UInt8) :=
  if c = [] ∨ c = [46] then stack
  else if c = dotDot then
    match stack with
    | [] => if absolute then [] else [dotDot]
    | top :: rest => if top = dotDot then dotDot :: stack else rest
  else c :: stack

def walk (absolute : Bool) (stack cs : List (List UInt8)) :
    List (List UInt8) :=
  cs.foldl (walkStep absolute) stack

def isAbsolute (path : List UInt8) : Bool :=
  path.head? = some 47

def place (path : List UInt8) : List (List UInt8) :=
  walk (isAbsolute path) [] (components path)

/-- The components that are left of a relative path when a name and the `..` that
takes it back are left out: so many `..`, and names, the last one first. -/
def simplifyStep (s : Nat × List (List UInt8)) (c : List UInt8) :
    Nat × List (List UInt8) :=
  if c = [] ∨ c = [46] then s
  else if c = dotDot then
    match s.2 with
    | [] => (s.1 + 1, [])
    | _ :: rest => (s.1, rest)
  else (s.1, c :: s.2)

def simplify (cs : List (List UInt8)) : Nat × List (List UInt8) :=
  cs.foldl simplifyStep (0, [])

def Below (folder place : List (List UInt8)) : Prop :=
  exists names, names ≠ [] ∧ dotDot ∉ names ∧ place = names ++ folder

/-- Where a relative path leads below a folder: the components that its `..`s
take back from the folder are followed again, and then at least one name. -/
def LeadsBelow (absolute : Bool) (folder cs : List (List UInt8)) : Prop :=
  (absolute = true ∨ (simplify cs).1 ≤ folder.length) ∧
    exists names, names ≠ [] ∧
      (simplify cs).2 = names ++ folder.take (simplify cs).1

/-- Folders that are there with every folder on their way. -/
def ParentClosed (folders : List (List UInt8) -> Prop) : Prop :=
  forall c folder, folders (c :: folder) -> folders folder

def Proper (c : List UInt8) : Prop :=
  c ≠ [] ∧ c ≠ [46] ∧ c ≠ dotDot

instance decidableProper (c : List UInt8) : Decidable (Proper c) :=
  inferInstanceAs (Decidable (c ≠ [] ∧ c ≠ [46] ∧ c ≠ dotDot))

section Components

variable {xs ys : List UInt8}

theorem components_ne_nil (xs : List UInt8) : components xs ≠ [] := by
  cases xs with
  | nil => exact List.cons_ne_nil _ _
  | cons b rest =>
      rw [components]
      split
      · exact List.cons_ne_nil _ _
      · split <;> exact List.cons_ne_nil _ _

theorem components_slash (xs : List UInt8) :
    components (47 :: xs) = [] :: components xs := if_pos rfl

theorem components_cons {b : UInt8} (hb : b ≠ 47) {c : List UInt8}
    {cs : List (List UInt8)} (h : components xs = c :: cs) :
    components (b :: xs) = (b :: c) :: cs := by
  rw [components, if_neg hb, h]

theorem components_append_slash (xs ys : List UInt8) :
    components (xs ++ 47 :: ys) = components xs ++ components ys := by
  induction xs with
  | nil => exact components_slash ys
  | cons b rest ih =>
      cases Classical.em (b = 47) with
      | inl hslash =>
          rw [hslash, List.cons_append, components_slash, components_slash, ih]
          rfl
      | inr hb =>
          cases hrest : components rest with
          | nil => exact absurd hrest (components_ne_nil rest)
          | cons c cs =>
              rw [hrest, List.cons_append] at ih
              rw [List.cons_append, components_cons hb ih,
                components_cons hb hrest]
              rfl

theorem components_of_no_slash (h : (47 : UInt8) ∉ xs) :
    components xs = [xs] := by
  induction xs with
  | nil => rfl
  | cons b rest ih =>
      rw [List.mem_cons, not_or] at h
      exact components_cons (Ne.symm h.left) (ih h.right)

theorem exists_last_slash (h : (47 : UInt8) ∈ xs) :
    exists front base, xs = front ++ 47 :: base ∧ (47 : UInt8) ∉ base := by
  induction xs with
  | nil => cases h
  | cons b rest ih =>
      cases Classical.em ((47 : UInt8) ∈ rest) with
      | inl hrest =>
          rcases ih hrest with ⟨front, base, rfl, hbase⟩
          exact ⟨b :: front, base, rfl, hbase⟩
      | inr hno =>
          cases h with
          | head => exact ⟨[], rest, rfl, hno⟩
          | tail _ hrest => exact absurd hrest hno

end Components

section Walk

variable {absolute : Bool} {stack cs cs' : List (List UInt8)}
  {base name : List UInt8}

theorem walkStep_skip {c : List UInt8} (h : c = [] ∨ c = [46]) :
    walkStep absolute stack c = stack := if_pos h

theorem walkStep_name {c : List UInt8} (h : Proper c) :
    walkStep absolute stack c = c :: stack := by
  unfold walkStep
  rw [if_neg (not_or.mpr ⟨h.left, h.right.left⟩), if_neg h.right.right]

theorem walkStep_up {top : List UInt8} (h : top ≠ dotDot) :
    walkStep absolute (top :: stack) dotDot = stack := by
  unfold walkStep
  rw [if_neg (by decide), if_pos rfl]
  exact if_neg h

theorem walk_append : walk absolute stack (cs ++ cs') =
    walk absolute (walk absolute stack cs) cs' :=
  List.foldl_append

theorem walk_of_proper (h : forall c, c ∈ cs -> Proper c) :
    walk absolute stack cs = cs.reverse ++ stack := by
  induction cs generalizing stack with
  | nil => rfl
  | cons c rest ih =>
      rw [walk, List.foldl_cons, walkStep_name (h c List.mem_cons_self)]
      exact (ih fun c hc => h c (List.mem_cons_of_mem _ hc)).trans (by simp)

theorem isAbsolute_folder_append (base name : List UInt8) :
    isAbsolute (base ++ 47 :: name) = isAbsolute (base ++ [47]) := by
  cases base <;> rfl

theorem place_folder_append (base name : List UInt8) :
    place (base ++ 47 :: name) =
      walk (isAbsolute (base ++ [47])) (place (base ++ [47]))
        (components name) := by
  unfold place
  rw [isAbsolute_folder_append, components_append_slash,
    components_append_slash, walk_append, walk_append]
  rfl

def climb (absolute : Bool) (folder : List (List UInt8)) (ups : Nat) :
    List (List UInt8) :=
  walk absolute folder (List.replicate ups dotDot)

theorem climb_succ {folder : List (List UInt8)} {ups : Nat} :
    climb absolute folder (ups + 1) =
      walkStep absolute (climb absolute folder ups) dotDot := by
  unfold climb
  rw [List.replicate_succ', walk_append]
  rfl

theorem dotDot_notMem_simplifyStep {s : Nat × List (List UInt8)}
    (h : dotDot ∉ s.2) (c : List UInt8) :
    dotDot ∉ (simplifyStep s c).2 := by
  unfold simplifyStep
  split
  · exact h
  · split
    · split
      · exact List.not_mem_nil
      · next top rest heq =>
          intro hmem
          rw [heq] at h
          exact h (List.mem_cons_of_mem _ hmem)
    · next hne =>
        rw [List.mem_cons, not_or]
        exact ⟨Ne.symm hne, h⟩

theorem walkStep_simplifyStep {s : Nat × List (List UInt8)}
    {folder : List (List UInt8)} (h : dotDot ∉ s.2) (c : List UInt8) :
    walkStep absolute (s.2 ++ climb absolute folder s.1) c =
      (simplifyStep s c).2 ++
        climb absolute folder (simplifyStep s c).1 := by
  unfold simplifyStep
  cases Classical.em (c = [] ∨ c = [46]) with
  | inl hskip => rw [walkStep_skip hskip, if_pos hskip]
  | inr hkeep =>
      rw [if_neg hkeep]
      cases Classical.em (c = dotDot) with
      | inl hup =>
          rw [if_pos hup, hup]
          cases hnames : s.2 with
          | nil =>
              dsimp only
              rw [List.nil_append, List.nil_append, climb_succ]
          | cons top rest =>
              rw [hnames, List.mem_cons, not_or] at h
              exact walkStep_up (Ne.symm h.left)
      | inr hname =>
          rw [if_neg hname]
          rw [not_or] at hkeep
          exact walkStep_name ⟨hkeep.left, hkeep.right, hname⟩

theorem foldl_simplifyStep {s : Nat × List (List UInt8)}
    {folder : List (List UInt8)} (h : dotDot ∉ s.2) :
    dotDot ∉ (cs.foldl simplifyStep s).2 ∧
      walk absolute (s.2 ++ climb absolute folder s.1) cs =
        (cs.foldl simplifyStep s).2 ++
          climb absolute folder (cs.foldl simplifyStep s).1 := by
  induction cs generalizing s with
  | nil => exact ⟨h, rfl⟩
  | cons c rest ih =>
      have hstep := dotDot_notMem_simplifyStep h c
      rw [List.foldl_cons, walk, List.foldl_cons, walkStep_simplifyStep h]
      exact ih hstep

theorem dotDot_notMem_simplify (cs : List (List UInt8)) :
    dotDot ∉ (simplify cs).2 :=
  (@foldl_simplifyStep false cs (0, []) [] List.not_mem_nil).left

theorem walk_eq_simplify (folder : List (List UInt8)) :
    walk absolute folder cs =
      (simplify cs).2 ++ climb absolute folder (simplify cs).1 :=
  (@foldl_simplifyStep absolute cs (0, []) folder List.not_mem_nil).right

theorem simplify_of_proper (h : forall c, c ∈ cs -> Proper c) :
    simplify cs = (0, cs.reverse) := by
  unfold simplify
  suffices hall : forall s : Nat × List (List UInt8),
      cs.foldl simplifyStep s = (s.1, cs.reverse ++ s.2) by
    rw [hall, List.append_nil]
  intro s
  induction cs generalizing s with
  | nil => rfl
  | cons c rest ih =>
      rcases h c List.mem_cons_self with ⟨hempty, hdot, hdotDot⟩
      rw [List.foldl_cons, simplifyStep,
        if_neg (not_or.mpr ⟨hempty, hdot⟩), if_neg hdotDot,
        ih (fun c hc => h c (List.mem_cons_of_mem _ hc))]
      simp

theorem climb_root (ups : Nat) : climb true [] ups = [] := by
  induction ups with
  | zero => rfl
  | succ ups ih =>
      rw [climb_succ, ih]
      rfl

theorem climb_dotDots (j ups : Nat) :
    climb false (List.replicate j dotDot) ups =
      List.replicate (j + ups) dotDot := by
  induction ups with
  | zero => rfl
  | succ ups ih =>
      rw [climb_succ, ih, ← Nat.add_assoc, List.replicate_succ]
      cases j + ups <;> rfl

theorem climb_names {names below : List (List UInt8)}
    (h : dotDot ∉ names) {ups : Nat} (hups : ups ≤ names.length) :
    climb absolute (names ++ below) ups = names.drop ups ++ below := by
  induction ups with
  | zero => rfl
  | succ ups ih =>
      rw [climb_succ, ih (by omega), List.drop_eq_getElem_cons hups,
        List.cons_append]
      apply walkStep_up
      intro htop
      exact h (htop ▸ List.getElem_mem hups)

theorem climb_add {folder : List (List UInt8)} (a b : Nat) :
    climb absolute folder (a + b) =
      climb absolute (climb absolute folder a) b := by
  unfold climb
  rw [← walk_append, List.replicate_append_replicate]

theorem exists_place (path : List UInt8) :
    exists names j, place path = names ++ List.replicate j dotDot ∧
      dotDot ∉ names ∧ (isAbsolute path = true -> j = 0) := by
  unfold place
  rw [walk_eq_simplify]
  have hnames := dotDot_notMem_simplify (components path)
  cases isAbsolute path with
  | true =>
      rw [climb_root]
      exact ⟨_, 0, rfl, hnames, fun _ => rfl⟩
  | false =>
      have hclimb := climb_dotDots 0 (simplify (components path)).1
      rw [Nat.zero_add, List.replicate_zero] at hclimb
      rw [hclimb]
      exact ⟨_, _, rfl, hnames, fun h => Bool.noConfusion h⟩

theorem below_append_iff {left taken rest : List (List UInt8)}
    (h : dotDot ∉ left) :
    Below (taken ++ rest) (left ++ rest) <->
      exists names, names ≠ [] ∧ left = names ++ taken := by
  unfold Below
  constructor
  · intro hbelow
    rcases hbelow with ⟨names, hne, _, heq⟩
    rw [← List.append_assoc] at heq
    exact ⟨names, hne, List.append_cancel_right heq⟩
  · intro hleft
    rcases hleft with ⟨names, hne, rfl⟩
    refine ⟨names, hne, ?_, List.append_assoc _ _ _⟩
    intro hmem
    exact h (List.mem_append_left _ hmem)

theorem not_below_dotDots {left names : List (List UInt8)} {j k : Nat}
    (hleft : dotDot ∉ left) (hnames : dotDot ∉ names) (hk : 0 < k) :
    ¬ Below (names ++ List.replicate j dotDot)
      (left ++ List.replicate (j + k) dotDot) := by
  intro h
  rcases h with ⟨more, _, hmore, heq⟩
  have hcount := congrArg (List.count dotDot) heq
  rw [List.count_append, List.count_append, List.count_append,
    List.count_eq_zero_of_not_mem hleft, List.count_eq_zero_of_not_mem hmore,
    List.count_eq_zero_of_not_mem hnames, List.count_replicate_self,
    List.count_replicate_self] at hcount
  omega

theorem below_climb_few {left names : List (List UInt8)} {j ups : Nat}
    (hleft : dotDot ∉ left) (hnames : dotDot ∉ names)
    (hfew : ups ≤ names.length) :
    Below (names ++ List.replicate j dotDot)
        (left ++ climb absolute (names ++ List.replicate j dotDot) ups) <->
      exists more, more ≠ [] ∧
        left = more ++ (names ++ List.replicate j dotDot).take ups := by
  have htake : (names ++ List.replicate j dotDot).take ups =
      names.take ups := List.take_append_of_le_length hfew
  have hfolder : names ++ List.replicate j dotDot =
      names.take ups ++ (names.drop ups ++ List.replicate j dotDot) := by
    rw [← List.append_assoc, List.take_append_drop]
  rw [climb_names hnames hfew, htake, hfolder]
  exact below_append_iff hleft

theorem climb_all {names below : List (List UInt8)} {ups : Nat}
    (hnames : dotDot ∉ names) (hmany : names.length ≤ ups) :
    climb absolute (names ++ below) ups =
      climb absolute below (ups - names.length) := by
  have hups : ups = names.length + (ups - names.length) := by omega
  rw [hups, climb_add, climb_names hnames (Nat.le_refl _), List.drop_length,
    List.nil_append, ← hups]

theorem below_climb_root {left names : List (List UInt8)} {ups : Nat}
    (hleft : dotDot ∉ left) (hnames : dotDot ∉ names)
    (hmany : names.length ≤ ups) :
    Below names (left ++ climb true names ups) <->
      exists more, more ≠ [] ∧ left = more ++ names.take ups := by
  have hclimb := @climb_all true names [] ups hnames hmany
  have hiff := @below_append_iff left names [] hleft
  rw [List.append_nil] at hclimb hiff
  rw [hclimb, climb_root, List.take_of_length_le hmany]
  exact hiff

theorem dotDot_mem_take {names : List (List UInt8)} {j ups : Nat}
    (hmany : names.length < ups)
    (hbound : ups ≤ (names ++ List.replicate j dotDot).length) :
    dotDot ∈ (names ++ List.replicate j dotDot).take ups := by
  rw [List.length_append, List.length_replicate] at hbound
  rw [List.take_append, List.take_replicate]
  apply List.mem_append_right
  rw [List.mem_replicate]
  exact ⟨by omega, rfl⟩

theorem below_walk_iff (path : List UInt8) :
    Below (place path) (walk (isAbsolute path) (place path) cs) <->
      LeadsBelow (isAbsolute path) (place path) cs := by
  rcases exists_place path with ⟨names, j, hplace, hnames, hroot⟩
  have hleft := dotDot_notMem_simplify cs
  unfold LeadsBelow
  rw [hplace, walk_eq_simplify]
  generalize (simplify cs).2 = left at hleft ⊢
  generalize (simplify cs).1 = ups
  cases Nat.lt_or_ge names.length ups with
  | inr hfew =>
      have hlength : ups ≤ (names ++ List.replicate j dotDot).length := by
        rw [List.length_append]
        omega
      rw [and_iff_right (Or.inr hlength)]
      exact below_climb_few hleft hnames hfew
  | inl hmany =>
      cases habsolute : isAbsolute path with
      | true =>
          rw [hroot habsolute, List.replicate_zero, List.append_nil names,
            and_iff_right (Or.inl rfl)]
          exact below_climb_root hleft hnames (Nat.le_of_lt hmany)
      | false =>
          apply iff_of_false
          · rw [climb_all hnames (Nat.le_of_lt hmany), climb_dotDots]
            exact not_below_dotDots hleft hnames (by omega)
          · intro h
            rcases h with ⟨hbound, more, _, heq⟩
            have hmem := dotDot_mem_take hmany
              (hbound.resolve_left Bool.false_ne_true)
            rw [heq] at hleft
            exact hleft (List.mem_append_right _ hmem)

theorem parentClosed_suffix (folder : List (List UInt8)) :
    ParentClosed (fun place => place <:+ folder) := by
  intro c place h
  exact (List.suffix_cons c place).trans h

end Walk

end Paths

end Foundation
end DartSync
