import Dialogue.Compile.Categories
import Mathlib.Data.List.Perm.Subperm
import Mathlib.Logic.Relation

/-!
# Categories and connected variables

A log of uses is *consistent* if no two variables that are connected by links are used as
of different categories (`Use.Consistent`). A conflict *explains* that one more use makes it
inconsistent (`Conflict.Explains`).

A unifier keeps connected variables below one root. The way up to a root takes fewer steps
than there are variables (`Unifier.Way.lt_size`), so looking for it gets there; it leaves
every variable below its root, though by another way (`Unifier.climb_of_way`). A unifier
*represents* a log if its trees are the classes of connected variables, and the root of each
has the category that they are used as (`Unifier.Represents`). Taking account of one more
use keeps this, or a conflict explains why it cannot (`Unifier.Represents.refine`). The
categories in the end are those that connected variables are used as
(`Unifier.Represents.get?_resolved_iff`).
-/

namespace Dialogue

/-! ## Logs of uses -/

namespace Use

variable {us us' : List Use} {m n : String}

/-- The variables of a use. -/
def names : Use → List String
  | typed name _ => [name]
  | linked left right => [left, right]

/-- Two variables are one, or they are linked, directly or through others. -/
def Connected (us : List Use) : String → String → Prop :=
  Relation.EqvGen fun l r => .linked l r ∈ us

/-- Connected variables are used as of one category. -/
def Consistent (us : List Use) : Prop :=
  ∀ m n j k, .typed m j ∈ us → .typed n k ∈ us → Connected us m n → j = k

/-- A variable, or one that is connected with it, is used as of this category. -/
def KnownAs (us : List Use) (n : String) (k : Category) : Prop :=
  ∃ m, Connected us n m ∧ .typed m k ∈ us

namespace Connected

/-- More uses connect no less. -/
theorem mono (h : Connected us m n) (hsub : us ⊆ us') : Connected us' m n :=
  Relation.EqvGen.mono (fun _ _ hlr => hsub hlr) _ _ h

/-- Variables are connected either way round. -/
theorem symm (h : Connected us m n) : Connected us n m := Relation.EqvGen.symm _ _ h

/-- What is connected to the same variable is connected. -/
theorem trans {o : String} (h : Connected us m n) (h' : Connected us n o) : Connected us m o :=
  Relation.EqvGen.trans _ _ _ h h'

/-- What linked variables share, connected ones do. -/
theorem iff_of_linked {p : String → Prop} (h : Connected us m n)
    (hlinked : ∀ l r, .linked l r ∈ us → (p l ↔ p r)) : p m ↔ p n := by
  induction h with
  | rel l r hlr => exact hlinked l r hlr
  | refl m => exact .rfl
  | symm _ _ _ ih => exact ih.symm
  | trans _ _ _ _ _ ih ih' => exact ih.trans ih'

end Connected

namespace KnownAs

variable {j k : Category}

/-- A variable is known as what it is used as. -/
theorem of_mem (h : .typed n k ∈ us) : KnownAs us n k := ⟨n, .refl n, h⟩

/-- More uses tell no less. -/
theorem mono (h : KnownAs us n k) (hsub : us ⊆ us') : KnownAs us' n k :=
  h.imp fun _ hm => ⟨hm.1.mono hsub, hsub hm.2⟩

/-- Connected variables are known as of the same categories. -/
theorem of_connected (h : KnownAs us n k) (hmn : Connected us m n) : KnownAs us m k :=
  h.imp fun _ hm => ⟨hmn.trans hm.1, hm.2⟩

/-- Where uses are consistent a variable is known as one category only. -/
theorem eq (hj : KnownAs us n j) (hk : KnownAs us n k) (hc : Consistent us) : j = k := by
  obtain ⟨m, hnm, hj⟩ := hj
  obtain ⟨m', hnm', hk⟩ := hk
  exact hc m m' j k hj hk (hnm.symm.trans hnm')

end KnownAs

/-- Fewer uses are no less consistent. -/
theorem Consistent.anti (h : Consistent us') (hsub : us ⊆ us') : Consistent us :=
  fun m n j k hm hn hmn => h m n j k (hsub hm) (hsub hn) (hmn.mono hsub)

/-- The order of a log does not matter to what is connected. -/
theorem connected_congr (h : us.Perm us') : Connected us m n ↔ Connected us' m n :=
  ⟨fun hc => hc.mono h.subset, fun hc => hc.mono h.symm.subset⟩

/-- What is known does not depend on the order of uses. -/
theorem knownAs_congr {k : Category} (h : us.Perm us') : KnownAs us n k ↔ KnownAs us' n k :=
  exists_congr fun _ => and_congr (connected_congr h) h.mem_iff

/-- Whether uses are consistent does not depend on their order. -/
theorem consistent_congr (h : us.Perm us') : Consistent us ↔ Consistent us' :=
  ⟨fun hc => hc.anti h.symm.subset, fun hc => hc.anti h.subset⟩

end Use

/-- A conflict tells how a use contradicts the log before it: it has the variable of the use,
    or the right one of a link, the category known before, and another one that the use
    requires. -/
def Conflict.Explains (e : Conflict) (us : List Use) : Use → Prop
  | .typed name k =>
    e.name = name ∧ e.found = k ∧ e.expected ≠ k ∧ Use.KnownAs us name e.expected
  | .linked left right =>
    e.name = right ∧ e.expected ≠ e.found ∧ Use.KnownAs us left e.expected ∧
      Use.KnownAs us right e.found

/-- A log whose last use contradicts those before it. -/
theorem Conflict.Explains.not_consistent {e : Conflict} {us : List Use} {use : Use}
    (h : e.Explains us use) : ¬ Use.Consistent (us ++ [use]) := by
  intro hc
  have hsub := List.subset_append_left us [use]
  have huse : use ∈ us ++ [use] := List.mem_append_right _ List.mem_cons_self
  cases use with
  | typed name k =>
    obtain ⟨-, -, hne, hknown⟩ := h
    exact hne ((hknown.mono hsub).eq (.of_mem huse) hc)
  | linked left right =>
    obtain ⟨-, hne, hleft, hright⟩ := h
    exact hne ((hleft.mono hsub).eq ((hright.mono hsub).of_connected (.rel _ _ huse)) hc)

/-! ## Trees -/

namespace Unifier

variable {parent : Catalog String} {n m : Nat} {a b name r s x y : String}

/-- The way up from a variable to its root, with the number of steps. -/
inductive Way (parent : Catalog String) : Nat → String → String → Prop
  /-- A root is above itself. -/
  | root {r : String} (h : parent.get? r = some r) : Way parent 0 r r
  /-- Any other variable is below another one. -/
  | up {n : Nat} {x y r : String} (h : parent.get? x = some y) (hne : y ≠ x)
      (hway : Way parent n y r) : Way parent (n + 1) x r

/-- A variable is in the tree of a root. -/
def Under (parent : Catalog String) (x r : String) : Prop := ∃ n, Way parent n x r

/-- Every variable is in the tree of a root. -/
def Rooted (parent : Catalog String) : Prop := ∀ x ∈ parent.names, ∃ r, Under parent x r

namespace Way

/-- There is one way up, and one root at its end. -/
theorem eq (h : Way parent n x r) (h' : Way parent m x s) : n = m ∧ r = s := by
  induction h generalizing m with
  | root hr =>
    cases h' with
    | root => exact ⟨rfl, rfl⟩
    | up hx hne _ => exact absurd (Option.some.inj (hx.symm.trans hr)) hne
  | up hx hne _ ih =>
    cases h' with
    | root hr => exact absurd (Option.some.inj (hx.symm.trans hr)) hne
    | up hx' _ hway =>
      cases hx.symm.trans hx'
      obtain ⟨rfl, rfl⟩ := ih hway
      exact ⟨rfl, rfl⟩

/-- The way up ends at a root. -/
theorem isRoot (h : Way parent n x r) : parent.get? r = some r := by
  induction h with
  | root h => exact h
  | up _ _ _ ih => exact ih

/-- The way up starts at a variable that is known. -/
theorem mem_names (h : Way parent n x r) : x ∈ parent.names := by
  cases h with
  | root h => exact Catalog.mem_names.2 ⟨_, h⟩
  | up h _ _ => exact Catalog.mem_names.2 ⟨_, h⟩

/-- The variables on a way are different ones. -/
theorem exists_nodup (h : Way parent n x r) : ∃ l : List String, l.length = n + 1 ∧ l.Nodup ∧
    ∀ y ∈ l, y ∈ parent.names ∧ ∃ m ≤ n, Way parent m y r := by
  induction h with
  | @root r h =>
    refine ⟨[r], rfl, List.pairwise_singleton .., List.forall_mem_singleton.2 ?_⟩
    exact ⟨(Way.root h).mem_names, 0, Nat.le_refl 0, .root h⟩
  | @up n x y r hx hne hway ih =>
    obtain ⟨l, hlength, hnodup, hl⟩ := ih
    have hup : Way parent (n + 1) x r := .up hx hne hway
    refine ⟨x :: l, congrArg Nat.succ hlength, List.nodup_cons.2 ⟨fun hmem => ?_, hnodup⟩,
      List.forall_mem_cons.2 ⟨⟨hup.mem_names, n + 1, Nat.le_refl _, hup⟩, ?_⟩⟩
    · -- The way from `x` is longer than that from any variable further up.
      obtain ⟨-, m, hm, hway'⟩ := hl x hmem
      have heq := (hup.eq hway').1
      omega
    · intro z hz
      obtain ⟨hname, m, hm, hway'⟩ := hl z hz
      exact ⟨hname, m, Nat.le_succ_of_le hm, hway'⟩

/-- A way up takes fewer steps than there are variables. -/
theorem lt_size (h : Way parent n x r) : n < parent.size := by
  obtain ⟨l, hlength, hnodup, hl⟩ := h.exists_nodup
  have hsub := List.subperm_of_subset hnodup fun y hy => (hl y hy).1
  have hle := hsub.length_le
  rw [hlength, Catalog.names, List.length_map] at hle
  exact hle

end Way

namespace Under

/-- A variable is under one root only. -/
theorem eq (h : Under parent x r) (h' : Under parent x s) : r = s :=
  (h.choose_spec.eq h'.choose_spec).2

/-- Two variables of one tree are in the same trees. -/
theorem congr (h : Under parent x r) (h' : Under parent y r) :
    Under parent x s ↔ Under parent y s :=
  ⟨fun hs => h.eq hs ▸ h', fun hs => h'.eq hs ▸ h⟩

/-- What it is under is a root. -/
theorem isRoot (h : Under parent x r) : parent.get? r = some r := h.choose_spec.isRoot

/-- A variable that is under a root is one of those known. -/
theorem mem_names (h : Under parent x r) : x ∈ parent.names := h.choose_spec.mem_names

/-- A root is in its own tree. -/
theorem of_isRoot (h : parent.get? r = some r) : Under parent r r := ⟨0, .root h⟩

/-- A variable is in the tree of the one above it. -/
theorem up (h : parent.get? x = some y) (hy : Under parent y r) : Under parent x r := by
  by_cases hxy : y = x
  · exact hxy ▸ hy
  · exact ⟨_, .up h hxy hy.choose_spec⟩

/-- When something else is put above one variable, the others are in the trees they were in,
    but for those that are in a tree with this variable because they are below it. -/
theorem insert (h : Under parent y s) (x z : String) :
    Under (parent.insert x z) y s ∨
      Under parent x s ∧
        ∀ t, Under (parent.insert x z) x t → Under (parent.insert x z) y t := by
  obtain ⟨n, hway⟩ := h
  induction hway with
  | @root r hr =>
    by_cases hx : x = r
    · subst hx
      exact .inr ⟨of_isRoot hr, fun t ht => ht⟩
    · exact .inl (of_isRoot (by rw [Catalog.get?_insert, if_neg hx, hr]))
  | @up n y w r hy hwy hway ih =>
    by_cases hx : x = y
    · subst hx
      exact .inr ⟨⟨_, .up hy hwy hway⟩, fun t ht => ht⟩
    · have hget : (parent.insert x z).get? y = some w := by
        rw [Catalog.get?_insert, if_neg hx, hy]
      exact ih.imp (up hget) (And.imp_right fun ih t ht => up hget (ih t ht))

end Under

/-- A variable put directly below its root stays in its tree, and so do all others. -/
theorem under_insert_root (hp : Rooted parent) (hx : Under parent x r) :
    Under (parent.insert x r) y s ↔ Under parent y s := by
  have hget : (parent.insert x r).get? x = some r := by rw [Catalog.get?_insert, if_pos rfl]
  have hr : (parent.insert x r).get? r = some r := by
    rw [Catalog.get?_insert]
    split
    · rfl
    · exact hx.isRoot
  have hto {y s : String} (h : Under parent y s) : Under (parent.insert x r) y s := by
    rcases h.insert x r with h | ⟨hs, hbelow⟩
    · exact h
    · rw [← hx.eq hs]
      exact hbelow r (.up hget (.of_isRoot hr))
  refine ⟨fun h => ?_, hto⟩
  obtain ⟨t, ht⟩ : ∃ t, Under parent y t := by
    rcases Catalog.mem_names_insert.1 h.mem_names with rfl | hy
    · exact ⟨r, hx⟩
    · exact hp y hy
  exact (hto ht).eq h ▸ ht

/-- A new variable that becomes a root is in a tree of its own. -/
theorem under_insert_new (hp : Rooted parent) (hname : name ∉ parent.names) :
    Under (parent.insert name name) y s ↔ Under parent y s ∨ y = name ∧ s = name := by
  have hroot : Under (parent.insert name name) name name :=
    .of_isRoot (by rw [Catalog.get?_insert, if_pos rfl])
  have hto {y s : String} (h : Under parent y s) : Under (parent.insert name name) y s :=
    (h.insert name name).resolve_right fun hs => hname hs.1.mem_names
  constructor
  · intro h
    rcases Catalog.mem_names_insert.1 h.mem_names with rfl | hy
    · exact .inr ⟨rfl, h.eq hroot⟩
    · obtain ⟨t, ht⟩ := hp y hy
      exact .inl ((hto ht).eq h ▸ ht)
  · rintro (h | ⟨rfl, rfl⟩)
    · exact hto h
    · exact hroot

/-- A root that is put below another one takes its tree along. -/
theorem under_insert_join (hp : Rooted parent) (ha : parent.get? a = some a)
    (hb : parent.get? b = some b) (hab : a ≠ b) :
    Under (parent.insert b a) y s ↔ Under parent y s ∧ s ≠ b ∨ Under parent y b ∧ s = a := by
  have hget : (parent.insert b a).get? b = some a := by rw [Catalog.get?_insert, if_pos rfl]
  have hroot : Under (parent.insert b a) b a := by
    refine .up hget (.of_isRoot ?_)
    rw [Catalog.get?_insert, if_neg hab.symm, ha]
  -- A name that is not below `b` keeps its root, and one below `b` now has the root of `a`.
  have hto {y s : String} (h : Under parent y s) (hs : s ≠ b) : Under (parent.insert b a) y s :=
    (h.insert b a).resolve_right fun hsb => hs (hsb.1.eq (.of_isRoot hb))
  have htob {y : String} (h : Under parent y b) : Under (parent.insert b a) y a := by
    rcases h.insert b a with h | ⟨-, h⟩
    · cases h.isRoot.symm.trans hget
      exact absurd rfl hab
    · exact h a hroot
  constructor
  · intro h
    obtain ⟨t, ht⟩ : ∃ t, Under parent y t := by
      rcases Catalog.mem_names_insert.1 h.mem_names with rfl | hy
      · exact ⟨_, .of_isRoot hb⟩
      · exact hp y hy
    by_cases htb : t = b
    · subst htb
      exact .inr ⟨ht, h.eq (htob ht)⟩
    · obtain rfl := (hto ht htb).eq h
      exact .inl ⟨ht, htb⟩
  · rintro (⟨h, hs⟩ | ⟨h, rfl⟩)
    · exact hto h hs
    · exact htob h

/-- Going up gets to the root if there are steps enough, and leaves all variables in their
    trees. -/
theorem climb_of_way (hp : Rooted parent) (h : Way parent n x r) {limit : Nat}
    (hlimit : n < limit) :
    (climb parent x limit).1 = r ∧
      (∀ y s, Under (climb parent x limit).2 y s ↔ Under parent y s) ∧
      ∀ y, y ∈ (climb parent x limit).2.names ↔ y ∈ parent.names := by
  induction h generalizing limit with
  | @root r hr =>
    obtain ⟨limit, rfl⟩ := Nat.exists_eq_add_of_lt hlimit
    rw [Nat.zero_add, climb, hr]
    dsimp only
    rw [if_pos rfl]
    exact ⟨rfl, fun _ _ => .rfl, fun _ => .rfl⟩
  | @up n x y r hx hne hway ih =>
    obtain ⟨limit, rfl⟩ := Nat.exists_eq_add_of_lt hlimit
    have hn : n < n + 1 + limit := by omega
    obtain ⟨hroot, hunder, hnames⟩ := ih hn
    rw [climb, hx]
    dsimp only
    rw [if_neg hne, hroot]
    -- The trees are the same after the climb from above, so the root of `x` is too.
    have hrooted : Rooted (climb parent y (n + 1 + limit)).2 := fun z hz =>
      (hp z ((hnames z).1 hz)).imp fun s => (hunder z s).2
    have hup := (hunder x r).2 ⟨_, .up hx hne hway⟩
    refine ⟨rfl, fun z s => (under_insert_root hrooted hup).trans (hunder z s), fun z => ?_⟩
    rw [Catalog.mem_names_insert, hnames]
    refine or_iff_right_of_imp ?_
    rintro rfl
    exact Catalog.mem_names.2 ⟨y, hx⟩

/-- Going up with steps enough keeps all trees. A new variable gets one of its own. -/
theorem climb_spec (hp : Rooted parent) (name : String) :
    Under (climb parent name (parent.size + 1)).2 name (climb parent name (parent.size + 1)).1 ∧
      (∀ y, y ∈ (climb parent name (parent.size + 1)).2.names ↔ y = name ∨ y ∈ parent.names) ∧
      ∀ y s, Under (climb parent name (parent.size + 1)).2 y s ↔
        Under parent y s ∨ name ∉ parent.names ∧ y = name ∧ s = name := by
  by_cases hname : name ∈ parent.names
  · obtain ⟨r, n, hway⟩ := hp name hname
    obtain ⟨hroot, hunder, hnames⟩ := climb_of_way hp hway (Nat.lt_succ_of_lt hway.lt_size)
    refine ⟨?_, fun y => ?_, fun y s => ?_⟩
    · rw [hroot, hunder]
      exact ⟨n, hway⟩
    · exact (hnames y).trans (or_iff_right_of_imp fun hy => hy ▸ hname).symm
    · exact (hunder y s).trans (or_iff_left fun hnew => hnew.1 hname).symm
  · have hnone : parent.get? name = none :=
      Option.eq_none_iff_forall_ne_some.2 fun y hy => hname (Catalog.mem_names.2 ⟨y, hy⟩)
    rw [climb, hnone]
    refine ⟨?_, fun y => Catalog.mem_names_insert, fun y s => ?_⟩
    · exact (under_insert_new hp hname).2 (.inr ⟨rfl, rfl⟩)
    · exact (under_insert_new hp hname).trans (or_congr_right (and_iff_right hname).symm)

/-- Looking for the root of a variable keeps all trees. A new variable gets one of its own. -/
theorem find_spec {u u' : Unifier} (hp : Rooted u.parent) (h : u.find name = (r, u')) :
    u'.category = u.category ∧ Under u'.parent name r ∧
      (∀ y, y ∈ u'.parent.names ↔ y = name ∨ y ∈ u.parent.names) ∧
      ∀ y s, Under u'.parent y s ↔
        Under u.parent y s ∨ name ∉ u.parent.names ∧ y = name ∧ s = name := by
  obtain ⟨rfl, rfl⟩ := Prod.mk.inj h.symm
  exact ⟨rfl, climb_spec hp name⟩

/-! ## Unifiers and logs -/

open Use (Connected Consistent KnownAs)

variable {u u' : Unifier} {us : List Use} {k : Category}

/-- The trees of a unifier are the classes of connected variables, and the root of each has
    the category that its variables are used as. -/
structure Represents (u : Unifier) (us : List Use) : Prop where
  /-- Every variable has a root. -/
  rooted : Rooted u.parent
  /-- The variables that are used are in trees. -/
  listed : ∀ use ∈ us, ∀ n ∈ use.names, n ∈ u.parent.names
  /-- Linked variables are in one tree. -/
  linked : ∀ l r, .linked l r ∈ us → ∀ s, Under u.parent l s ↔ Under u.parent r s
  /-- The variables of a tree are connected. -/
  connected : ∀ m n s, Under u.parent m s → Under u.parent n s → Connected us m n
  /-- A root has the categories that the variables of its tree are used as. -/
  category : ∀ s k, u.category.get? s = some k ↔ ∃ m, Under u.parent m s ∧ .typed m k ∈ us

namespace Represents

/-- Without uses there are no variables. -/
theorem empty : Represents .empty [] where
  rooted := nofun
  listed := nofun
  linked := nofun
  connected _ _ _ hm := nomatch hm.mem_names
  category _ _ := ⟨nofun, fun ⟨_, _, hm⟩ => nomatch hm⟩

/-- The category of a tree is the one that its variables are known as. -/
theorem category_iff (hr : Represents u us) (h : Under u.parent x r) :
    u.category.get? r = some k ↔ KnownAs us x k := by
  refine (hr.category r k).trans (exists_congr fun m => and_congr_left fun _ => ?_)
  refine ⟨hr.connected x m r h, fun hxm => ?_⟩
  exact (hxm.iff_of_linked fun a b hab => hr.linked a b hab r).1 h

/-- What is represented is consistent. -/
theorem consistent (hr : Represents u us) : Consistent us := by
  intro m n j k hm hn hmn
  obtain ⟨r, hroot⟩ := hr.rooted m (hr.listed _ hm m List.mem_cons_self)
  have hj := (hr.category_iff hroot).2 (.of_mem hm)
  have hk := (hr.category_iff hroot).2 ((KnownAs.of_mem hn).of_connected hmn)
  exact Option.some.inj (hj.symm.trans hk)

/-- Looking for a root. -/
theorem find (hr : Represents u us) (h : u.find name = (r, u')) : Represents u' us := by
  obtain ⟨hcategory, -, hnames, hunder⟩ := find_spec hr.rooted h
  -- Only a variable that is new, and so not used yet, is in another tree.
  have hused {use : Use} (huse : use ∈ us) {n : String} (hn : n ∈ use.names) (s : String) :
      Under u'.parent n s ↔ Under u.parent n s := by
    rw [hunder]
    refine or_iff_left ?_
    rintro ⟨hname, rfl, -⟩
    exact hname (hr.listed use huse n hn)
  constructor
  case rooted =>
    intro y hy
    rcases (hnames y).1 hy with rfl | hy
    · exact ⟨r, (find_spec hr.rooted h).2.1⟩
    · exact (hr.rooted y hy).imp fun s hs => (hunder y s).2 (.inl hs)
  case listed => exact fun use huse n hn => (hnames n).2 (.inr (hr.listed use huse n hn))
  case linked =>
    intro a b hab s
    rw [hused hab (by simp [Use.names]), hused hab (by simp [Use.names]), hr.linked a b hab s]
  case connected =>
    intro m n s hm hn
    rcases (hunder m s).1 hm with hm | ⟨hname, rfl, rfl⟩
    · rcases (hunder n s).1 hn with hn | ⟨hname, rfl, rfl⟩
      · exact hr.connected m n s hm hn
      · exact absurd (Catalog.mem_names.2 ⟨_, hm.isRoot⟩) hname
    · rcases (hunder n _).1 hn with hn | ⟨-, rfl, -⟩
      · exact absurd (Catalog.mem_names.2 ⟨_, hn.isRoot⟩) hname
      · exact .refl _
  case category =>
    intro s k
    rw [hcategory, hr.category s k]
    refine exists_congr fun m => and_congr_left fun hm => ?_
    exact (hused hm (by simp [Use.names]) s).symm

/-- What is listed when the log gets one more use. -/
theorem listed_append (hr : Represents u us) {use : Use}
    (huse : ∀ n ∈ use.names, n ∈ u.parent.names) :
    ∀ use' ∈ us ++ [use], ∀ n ∈ use'.names, n ∈ u.parent.names := by
  intro use' huse'
  rcases List.mem_append.1 huse' with huse' | huse'
  · exact hr.listed use' huse'
  · exact List.mem_singleton.1 huse' ▸ huse

/-- One more use of a variable as of the category of its tree. -/
theorem typed (hr : Represents u us) (h : Under u.parent name r)
    (hk : ∀ j, u.category.get? r = some j → j = k) :
    Represents { u with category := u.category.insert r k } (us ++ [.typed name k]) where
  rooted := hr.rooted
  listed := by
    refine hr.listed_append fun n hn => ?_
    rw [List.mem_singleton.1 hn]
    exact h.mem_names
  linked a b hab := hr.linked a b (by simpa using hab)
  connected m n s hm hn := (hr.connected m n s hm hn).mono (List.subset_append_left ..)
  category s j := by
    rw [Catalog.get?_insert]
    split
    · rename_i hs
      subst hs
      refine ⟨fun heq => ⟨name, h, by simp [Option.some.inj heq]⟩, ?_⟩
      rintro ⟨m, hm, hj⟩
      rcases List.mem_append.1 hj with hj | hj
      · rw [hk j ((hr.category r j).2 ⟨m, hm, hj⟩)]
      · simp only [List.mem_singleton, Use.typed.injEq] at hj
        rw [hj.2]
    · -- The variable is in no other tree.
      rename_i hs
      rw [hr.category s j]
      refine exists_congr fun m => and_congr_right fun hm => ?_
      have hne : m ≠ name := by
        rintro rfl
        exact hs (h.eq hm)
      simp [hne]

/-- One more link inside a tree. -/
theorem link (hr : Represents u us) (ha : Under u.parent a r) (hb : Under u.parent b r) :
    Represents u (us ++ [.linked a b]) where
  rooted := hr.rooted
  listed := by
    refine hr.listed_append fun n hn => ?_
    rcases List.mem_cons.1 hn with rfl | hn
    · exact ha.mem_names
    · exact List.mem_singleton.1 hn ▸ hb.mem_names
  linked m n hmn s := by
    rcases List.mem_append.1 hmn with hmn | hmn
    · exact hr.linked m n hmn s
    · obtain ⟨rfl, rfl⟩ := Use.linked.inj (List.mem_singleton.1 hmn)
      exact ha.congr hb
  connected m n s hm hn := (hr.connected m n s hm hn).mono (List.subset_append_left ..)
  category s k := by simp [hr.category s k]

/-- Two trees with the category of either are joined, and then have a link between them. -/
theorem join (hr : Represents u us) (hx : Under u.parent x a) (hy : Under u.parent y b)
    (hab : a ≠ b) {category : Catalog Category}
    (hcategory : ∀ s k, category.get? s = some k ↔
      u.category.get? s = some k ∨ s = a ∧ u.category.get? b = some k) :
    Represents (u.join a b category) (us ++ [.linked x y]) := by
  have hunder (z s : String) : Under (u.join a b category).parent z s ↔
      Under u.parent z s ∧ s ≠ b ∨ Under u.parent z b ∧ s = a :=
    under_insert_join hr.rooted hx.isRoot hy.isRoot hab
  have hnames (z : String) : z ∈ (u.join a b category).parent.names ↔ z ∈ u.parent.names :=
    Catalog.mem_names_insert.trans
      (or_iff_right_of_imp fun hz => hz ▸ (Under.of_isRoot hy.isRoot).mem_names)
  have hsub := List.subset_append_left us [.linked x y]
  -- The new link connects all variables of the one tree with all of the other.
  have hcross (m n : String) (hm : Under u.parent m a) (hn : Under u.parent n b) :
      Connected (us ++ [.linked x y]) m n := by
    have hlink : Connected (us ++ [.linked x y]) x y :=
      .rel _ _ (List.mem_append_right _ List.mem_cons_self)
    have hmx := (hr.connected m x a hm hx).mono hsub
    have hyn := (hr.connected y n b hy hn).mono hsub
    exact (hmx.trans hlink).trans hyn
  constructor
  case rooted =>
    intro z hz
    obtain ⟨s, hs⟩ := hr.rooted z ((hnames z).1 hz)
    by_cases hsb : s = b
    · subst hsb
      exact ⟨a, (hunder z a).2 (.inr ⟨hs, rfl⟩)⟩
    · exact ⟨s, (hunder z s).2 (.inl ⟨hs, hsb⟩)⟩
  case listed =>
    intro use huse n hn
    refine (hnames n).2 (hr.listed_append (fun n hn => ?_) use huse n hn)
    rcases List.mem_cons.1 hn with rfl | hn
    · exact hx.mem_names
    · exact List.mem_singleton.1 hn ▸ hy.mem_names
  case linked =>
    intro m n hmn s
    rcases List.mem_append.1 hmn with hmn | hmn
    · rw [hunder, hunder, hr.linked m n hmn s, hr.linked m n hmn b]
    · obtain ⟨rfl, rfl⟩ := Use.linked.inj (List.mem_singleton.1 hmn)
      exact Under.congr ((hunder m a).2 (.inl ⟨hx, hab⟩)) ((hunder n a).2 (.inr ⟨hy, rfl⟩))
  case connected =>
    intro m n s hm hn
    rw [hunder] at hm hn
    rcases hm with ⟨hm, -⟩ | ⟨hm, rfl⟩
    · rcases hn with ⟨hn, -⟩ | ⟨hn, rfl⟩
      · exact (hr.connected m n s hm hn).mono hsub
      · exact hcross m n hm hn
    · rcases hn with ⟨hn, -⟩ | ⟨hn, -⟩
      · exact (hcross n m hn hm).symm
      · exact (hr.connected m n b hm hn).mono hsub
  case category =>
    intro s k
    simp only [hunder, List.mem_append, List.mem_singleton, reduceCtorEq, or_false]
    rw [Unifier.join, Catalog.get?_erase]
    split
    · -- The root that is now below the other one has no tree.
      rename_i hs
      subst hs
      simp [hab.symm]
    · rename_i hs
      rw [hcategory, hr.category, hr.category]
      simp only [ne_eq, Ne.symm hs, not_false_eq_true, and_true, or_and_right, exists_or]
      simp [and_comm, and_assoc]

/-- A use of a variable as of some category. -/
theorem assign (hr : Represents u us) (name : String) (k : Category) :
    match u.assign name k with
    | .ok u' => Represents u' (us ++ [.typed name k])
    | .error e => e.Explains us (.typed name k) := by
  rw [Unifier.assign]
  rcases hfind : u.find name with ⟨r, u'⟩
  have hr' := hr.find hfind
  have hname := (find_spec hr.rooted hfind).2.1
  dsimp only
  cases hget : u'.category.get? r with
  | none => exact hr'.typed hname fun j hj => by cases hget.symm.trans hj
  | some known =>
    dsimp only
    by_cases hk : known = k
    · subst hk
      rw [if_neg (not_not_intro rfl)]
      exact hr'.typed hname fun j hj => Option.some.inj (hj.symm.trans hget)
    · rw [if_pos hk]
      exact ⟨rfl, rfl, hk, (hr'.category_iff hname).1 hget⟩

/-- A link between two variables. -/
theorem union (hr : Represents u us) (x y : String) :
    match u.union x y with
    | .ok u' => Represents u' (us ++ [.linked x y])
    | .error e => e.Explains us (.linked x y) := by
  rw [Unifier.union]
  rcases hfindx : u.find x with ⟨a, u₁⟩
  have hr₁ := hr.find hfindx
  dsimp only
  rcases hfindy : u₁.find y with ⟨b, u₂⟩
  have hr₂ := hr₁.find hfindy
  obtain ⟨-, hy, -, hunder⟩ := find_spec hr₁.rooted hfindy
  have hx := (hunder x a).2 (.inl (find_spec hr.rooted hfindx).2.1)
  dsimp only
  by_cases hab : a = b
  · rw [if_pos hab]
    exact hr₂.link (hab ▸ hx) hy
  · rw [if_neg hab]
    cases hj : u₂.category.get? a with
    | none =>
      cases hk : u₂.category.get? b with
      | none => exact hr₂.join hx hy hab fun s i => by simp [hk]
      | some k =>
        -- The category moves from the root that is put below to the other one.
        refine hr₂.join hx hy hab fun s i => ?_
        rw [Catalog.get?_insert, hk]
        split
        · rename_i hs
          subst hs
          simp [hj]
        · rename_i hs
          simp [Ne.symm hs]
    | some j =>
      cases hk : u₂.category.get? b with
      | none => exact hr₂.join hx hy hab fun s i => by simp [hk]
      | some k =>
        dsimp only
        by_cases hjk : j = k
        · subst hjk
          rw [if_neg (not_not_intro rfl)]
          refine hr₂.join hx hy hab fun s i => (or_iff_left_of_imp ?_).symm
          rintro ⟨rfl, hi⟩
          rw [hj, ← hk, hi]
        · rw [if_pos hjk]
          exact ⟨rfl, hjk, (hr₂.category_iff hx).1 hj, (hr₂.category_iff hy).1 hk⟩

/-- Taking account of one more use keeps this, or there is a conflict that explains how the
    use contradicts the log before it. -/
theorem refine (hr : Represents u us) (use : Use) :
    match u.refine use with
    | .ok u' => Represents u' (us ++ [use])
    | .error e => e.Explains us use := by
  cases use with
  | typed name k => exact hr.assign name k
  | linked x y => exact hr.union x y

/-- The categories listed for variables. -/
theorem get?_categoriesOf_iff (hr : Represents u us) (names : List String) :
    (u.categoriesOf names).get? x = some k ↔ x ∈ names ∧ KnownAs us x k := by
  induction names generalizing u with
  | nil => simp [categoriesOf]
  | cons name names ih =>
    rw [categoriesOf]
    rcases hfind : u.find name with ⟨r, u'⟩
    have hr' := hr.find hfind
    have hname (k : Category) := hr'.category_iff (k := k) (find_spec hr.rooted hfind).2.1
    dsimp only
    cases hget : u'.category.get? r with
    | none =>
      -- Nothing connected with the variable has a category.
      dsimp only
      rw [ih hr', List.mem_cons, or_and_right]
      refine (or_iff_right ?_).symm
      rintro ⟨rfl, hk⟩
      cases hget.symm.trans ((hname k).2 hk)
    | some known =>
      dsimp only
      rw [Catalog.get?_insert, List.mem_cons]
      split
      · rename_i hx
        subst hx
        rw [← hname k, hget]
        simp
      · rename_i hx
        rw [ih hr', or_iff_right (Ne.symm hx)]

/-- The variables whose category is known, with this category. -/
theorem get?_resolved_iff (hr : Represents u us) :
    u.resolved.get? x = some k ↔ KnownAs us x k := by
  rw [resolved, hr.get?_categoriesOf_iff]
  refine and_iff_right_of_imp ?_
  rintro ⟨m, hxm, hm⟩
  obtain ⟨r, hroot⟩ := hr.rooted m (hr.listed _ hm m List.mem_cons_self)
  exact ((hxm.iff_of_linked fun a b hab => hr.linked a b hab r).2 hroot).mem_names

end Represents

end Unifier
end Dialogue
