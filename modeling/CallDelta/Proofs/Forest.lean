import CallDelta.Proofs.Subtree
import CallDelta.Script.OfMapping

/-!
# Replaying edit actions on a forest

Actions are taken on a forest of named nodes. It begins as the source tree, and siblings have no
order in it. A destination node stands in it as its partner, or as a copy if it has none. Half-way
there can be several roots, so that it is a forest and not a tree.

* `Forest.perform`: the forest after an action
* `Forest.Allows`: whether an action can be taken without harm
* `Forest.Safe`, `Forest.replay`: the same for a script
* `Forest.WellFormed.replay`: a safe script keeps a forest well formed
-/

namespace CallDelta

/-- A node of a forest. -/
inductive Piece where
  /-- A node that was there at the start. -/
  | kept (s : Nat)
  /-- A copy of a destination node. -/
  | copy (d : Nat)
  deriving DecidableEq

/-- A node in its place. -/
structure Placement where
  typeName : String
  label : Option String
  parent : Option Piece
  deriving DecidableEq

/-- Where each node is, if it is there. -/
def Forest : Type := Piece → Option Placement

/-- A node of a tree in its place, with the nodes called by `name`. -/
def Tree.placement (t : Tree) (name : Nat → Piece) (i : Nat) : Placement :=
  ⟨t.typeName i, t.label? i, (t.parent? i).map name⟩

/-- What stands for a destination node. -/
def Mapping.image (m : Mapping) (d : Nat) : Piece := (m.srcOf? d).elim (.copy d) .kept

namespace Forest

variable {F G : Forest} {t : Tree} {n p q : Piece} {e : Placement} {name : Nat → Piece}

/-- The tree itself, without the order of siblings. -/
def ofTree (t : Tree) : Forest
  | .kept i => if i < t.size then some (t.placement .kept i) else none
  | .copy _ => none

/-- The forest is a tree, up to the order of siblings and the names of nodes. -/
structure Copies (F : Forest) (t : Tree) (name : Nat → Piece) : Prop where
  injective : ∀ i j, i < t.size → j < t.size → name i = name j → i = j
  placed : ∀ i, i < t.size → F (name i) = some (t.placement name i)
  only : ∀ n e, F n = some e → ∃ i, i < t.size ∧ n = name i

/-! ## What hangs where -/

def Has (F : Forest) (n : Piece) : Prop := ∃ e, F n = some e

/-- Node `n` is `a` or hangs below it. -/
inductive Within (F : Forest) (a : Piece) : Piece → Prop where
  | refl : Within F a a
  | step {n p : Piece} {e : Placement} (hn : F n = some e) (hp : e.parent = some p)
      (h : Within F a p) : Within F a n

/-- The climb from node `n` ends at a root. -/
inductive Grounded (F : Forest) : Piece → Prop where
  | climb {n : Piece} {e : Placement} (hn : F n = some e)
      (h : ∀ p, e.parent = some p → Grounded F p) : Grounded F n

/-- Every climb ends at a root. -/
def WellFormed (F : Forest) : Prop := ∀ n e, F n = some e → F.Grounded n

theorem Within.trans (hpq : F.Within p q) (hqn : F.Within q n) : F.Within p n := by
  induction hqn with
  | refl => exact hpq
  | step hn hp _ ih => exact .step hn hp ih

theorem Grounded.has (h : F.Grounded n) : F.Has n := by
  obtain ⟨hn, -⟩ := h
  exact ⟨_, hn⟩

theorem Grounded.parent (h : F.Grounded n) (hn : F n = some e) (hp : e.parent = some p) :
    F.Grounded p := by
  obtain ⟨hn', h⟩ := h
  rw [hn] at hn'
  cases hn'
  exact h p hp

/-- In a well-formed forest the parent of a node is there. -/
theorem WellFormed.has_parent (h : F.WellFormed) (hn : F n = some e) (hp : e.parent = some p) :
    F.Has p :=
  ((h n e hn).parent hn hp).has

/-- In a well-formed forest no node hangs below itself. -/
theorem WellFormed.not_within_parent (h : F.WellFormed) (hn : F n = some e)
    (hp : e.parent = some p) : ¬ F.Within n p := by
  intro hcycle
  -- a cycle through a node is a cycle through its parent, and the climb would never end
  induction h n e hn generalizing e p with
  | @climb n e' hn' _ ih =>
    rw [hn] at hn'
    cases hn'
    cases hcycle with
    | refl => exact ih n hp hn hp .refl
    | step hn₂ hp₂ hcycle => exact ih p hp hn₂ hp₂ ((Within.step hn hp .refl).trans hcycle)

theorem ofTree_copies (t : Tree) : (ofTree t).Copies t .kept where
  injective i j _ _ h := Piece.kept.inj h
  placed i hi := if_pos hi
  only n e h := by
    cases n with
    | kept i =>
      by_cases hi : i < t.size
      · exact ⟨i, hi, rfl⟩
      · rw [ofTree, if_neg hi] at h
        cases h
    | copy d => cases h

theorem Copies.wellFormed (h : F.Copies t name) : F.WellFormed := by
  have hground : ∀ i, i < t.size → F.Grounded (name i) := by
    intro i
    induction i using Nat.strongRecOn with
    | _ i ih =>
      intro hi
      refine .climb (h.placed i hi) fun p hp => ?_
      obtain ⟨j, hj, rfl⟩ := Option.map_eq_some_iff.mp hp
      have hlt := Tree.lt_of_parent? hj
      exact ih j hlt (Nat.lt_trans hlt hi)
  intro n e hn
  obtain ⟨i, hi, rfl⟩ := h.only n e hn
  exact hground i hi

/-! ## Changing a forest -/

/-- Puts copies of destination nodes into a forest, the first of them below `parent`. -/
def plant (F : Forest) (dst : Tree) (nodes : List Nat) (top : Nat) (parent : Option Piece) : Forest
  | .copy i =>
    if i ∈ nodes then
      some (if i = top then { dst.placement .copy i with parent } else dst.placement .copy i)
    else F (.copy i)
  | .kept s => F (.kept s)

/-- Changes one node of a forest. -/
def alter (F : Forest) (n : Piece) (f : Placement → Placement) : Forest :=
  fun n' => if n' = n then (F n').map f else F n'

/-- Takes nodes of the start out of a forest. -/
def uproot (F : Forest) (nodes : List Nat) : Forest
  | .kept i => if i ∈ nodes then none else F (.kept i)
  | .copy d => F (.copy d)

theorem alter_self {f : Placement → Placement} (hn : F n = some e) :
    F.alter n f n = some (f e) := by
  rw [alter, if_pos rfl, hn]
  rfl

theorem alter_of_ne {f : Placement → Placement} (hne : q ≠ n) : F.alter n f q = F q := if_neg hne

theorem plant_of_not_mem {dst : Tree} {nodes : List Nat} {top : Nat} {parent : Option Piece}
    (h : ∀ i ∈ nodes, n ≠ .copy i) : F.plant dst nodes top parent n = F n := by
  cases n with
  | kept s => rfl
  | copy i => exact if_neg fun hi => h i hi rfl

theorem uproot_of_not_mem {nodes : List Nat} (h : ∀ i ∈ nodes, n ≠ .kept i) :
    F.uproot nodes n = F n := by
  cases n with
  | kept i => exact if_neg fun hi => h i hi rfl
  | copy d => rfl

theorem uproot_kept_of_mem {nodes : List Nat} {i : Nat} (hi : i ∈ nodes) :
    F.uproot nodes (.kept i) = none :=
  if_pos hi

theorem has_of_has_alter {f : Placement → Placement} (h : (F.alter n f).Has q) : F.Has q := by
  obtain ⟨e, he⟩ := h
  by_cases hq : q = n
  · rw [alter, if_pos hq] at he
    obtain ⟨e', he', -⟩ := Option.map_eq_some_iff.mp he
    exact ⟨e', he'⟩
  · rw [alter_of_ne hq] at he
    exact ⟨e, he⟩

/-! ## Changes that keep a forest well formed -/

theorem WellFormed.plant {dst : Tree} {nodes : List Nat} {top : Nat} {parent : Option Piece}
    (h : F.WellFormed) (hfresh : ∀ i ∈ nodes, F (.copy i) = none)
    (hparent : ∀ q, parent = some q → F.Has q)
    (hinner : ∀ i ∈ nodes, i ≠ top → ∀ j, dst.parent? i = some j → j ∈ nodes) :
    (F.plant dst nodes top parent).WellFormed := by
  have hold : ∀ n, F.Grounded n → (F.plant dst nodes top parent).Grounded n := by
    intro n hg
    induction hg with
    | @climb n e hn _ ih =>
      have hne : ∀ i ∈ nodes, n ≠ .copy i := by
        rintro i hi rfl
        rw [hfresh i hi] at hn
        cases hn
      exact .climb ((plant_of_not_mem hne).trans hn) ih
  -- the copies hang together up to the top, and the numbers of their nodes fall on the way
  have hnew : ∀ i, i ∈ nodes → (F.plant dst nodes top parent).Grounded (.copy i) := by
    intro i
    induction i using Nat.strongRecOn with
    | _ i ih =>
      intro hi
      refine .climb (if_pos hi) fun q hq => ?_
      by_cases htop : i = top
      · rw [if_pos htop] at hq
        obtain ⟨e, he⟩ := hparent q hq
        exact hold q (h q e he)
      · rw [if_neg htop] at hq
        obtain ⟨j, hj, rfl⟩ := Option.map_eq_some_iff.mp hq
        exact ih j (Tree.lt_of_parent? hj) (hinner i hi htop j hj)
  intro n e hn
  by_cases hmem : ∃ i ∈ nodes, n = .copy i
  · obtain ⟨i, hi, rfl⟩ := hmem
    exact hnew i hi
  · rw [plant_of_not_mem fun i hi he => hmem ⟨i, hi, he⟩] at hn
    exact hold n (h n e hn)

theorem WellFormed.alter {f : Placement → Placement} (h : F.WellFormed)
    (hf : ∀ e, (f e).parent = e.parent) : (F.alter n f).WellFormed := by
  have hkeep : ∀ q, F.Grounded q → (F.alter n f).Grounded q := by
    intro q hg
    induction hg with
    | @climb q e hq _ ih =>
      by_cases hqn : q = n
      · subst hqn
        exact .climb (alter_self hq) fun p hp => ih p ((hf e).symm.trans hp)
      · exact .climb ((alter_of_ne hqn).trans hq) ih
  intro q e hq
  obtain ⟨e', he'⟩ := has_of_has_alter ⟨e, hq⟩
  exact hkeep q (h q e' he')

/-- A node may be put below a node that does not hang below it. -/
theorem WellFormed.move (h : F.WellFormed) (hn : F.Has n) (hp : F.Has p) (hcycle : ¬ F.Within n p) :
    (F.alter n fun e => { e with parent := some p }).WellFormed := by
  -- what does not hang below `n` climbs as before, the new parent of `n` among them
  have hbeside : ∀ q, F.Grounded q → ¬ F.Within n q →
      (F.alter n fun e => { e with parent := some p }).Grounded q := by
    intro q hg
    induction hg with
    | @climb q e hq _ ih =>
      intro hnq
      have hne : q ≠ n := by
        rintro rfl
        exact hnq .refl
      exact .climb ((alter_of_ne hne).trans hq) fun a ha => ih a ha fun hna => hnq (.step hq ha hna)
  obtain ⟨en, hen⟩ := hn
  obtain ⟨ep, hep⟩ := hp
  have hmoved : (F.alter n fun e => { e with parent := some p }).Grounded n := by
    refine .climb (alter_self hen) fun a ha => ?_
    cases ha
    exact hbeside p (h p ep hep) hcycle
  have hall : ∀ q, F.Grounded q → (F.alter n fun e => { e with parent := some p }).Grounded q := by
    intro q hg
    induction hg with
    | @climb q e hq _ ih =>
      by_cases hqn : q = n
      · rw [hqn]
        exact hmoved
      · exact .climb ((alter_of_ne hqn).trans hq) ih
  intro q e hq
  obtain ⟨e', he'⟩ := has_of_has_alter ⟨e, hq⟩
  exact hall q (h q e' he')

/-- Nodes may be taken out together with all that hangs below them. -/
theorem WellFormed.uproot {nodes : List Nat} (h : F.WellFormed)
    (hclosed : ∀ n e i, F n = some e → e.parent = some (.kept i) → i ∈ nodes →
      ∃ j ∈ nodes, n = .kept j) : (F.uproot nodes).WellFormed := by
  have hkeep : ∀ q, F.Grounded q → (∀ i ∈ nodes, q ≠ .kept i) → (F.uproot nodes).Grounded q := by
    intro q hg
    induction hg with
    | @climb q e hq _ ih =>
      intro hout
      refine .climb ((uproot_of_not_mem hout).trans hq) fun p hp => ih p hp ?_
      rintro i hi rfl
      obtain ⟨j, hj, he⟩ := hclosed q e i hq hp hi
      exact hout j hj he
  intro n e hn
  have hout : ∀ i ∈ nodes, n ≠ .kept i := by
    rintro i hi rfl
    rw [uproot_kept_of_mem hi] at hn
    cases hn
  rw [uproot_of_not_mem hout] at hn
  exact hkeep n (h n e hn) hout

/-! ## Actions -/

section replay

variable (trees : TreePair) (m : Mapping)

/-- The forest after an action. A node is inserted or moved below the image of the parent that the
action names. -/
def perform (F : Forest) : Action → Forest
  | .insertNode x parent _ => F.plant trees.dst [x] x (parent.map m.image)
  | .insertTree x parent _ => F.plant trees.dst (trees.dst.preOrder x) x (parent.map m.image)
  | .updateNode s label => F.alter (.kept s) fun e => { e with label }
  | .move s px _ => F.alter (.kept s) fun e => { e with parent := some (m.image px) }
  | .deleteNode s => F.uproot [s]
  | .deleteTree s => F.uproot (trees.src.preOrder s)

/-- Whether copies of destination nodes can be put below the image of `parent`. -/
def CanPlant (F : Forest) (nodes : List Nat) (parent : Option Nat) : Prop :=
  (∀ i ∈ nodes, F (.copy i) = none) ∧ ∀ px, parent = some px → F.Has (m.image px)

/-- Whether an action can be taken without harm. What is inserted is new, what is named is there, a
node is not moved below itself, a single node goes only without children, and a subtree only if it
is the one of the source tree and all its nodes are unpaired. -/
def Allows (F : Forest) : Action → Prop
  | .insertNode x parent _ => F.CanPlant m [x] parent
  | .insertTree x parent _ => F.CanPlant m (trees.dst.preOrder x) parent
  | .updateNode s _ => F.Has (.kept s)
  | .move s px _ =>
    F.Has (.kept s) ∧ F.Has (m.image px) ∧ ¬ F.Within (.kept s) (m.image px)
  | .deleteNode s => F.Has (.kept s) ∧ ∀ n e, F n = some e → e.parent ≠ some (.kept s)
  | .deleteTree s =>
    F.Has (.kept s) ∧
      (∀ n, F.Within (.kept s) n ↔ ∃ i ∈ trees.src.preOrder s, n = .kept i) ∧
      ∀ i ∈ trees.src.preOrder s, m.hasSrc i = false

/-- The forest after a script. -/
def replay (F : Forest) (script : EditScript) : Forest := script.foldl (perform trees m) F

/-- Whether each action of a script can be taken when its turn comes. -/
def Safe (F : Forest) : EditScript → Prop
  | [] => True
  | a :: rest => F.Allows trees m a ∧ (F.perform trees m a).Safe rest

variable {trees m} {a : Action} {script : EditScript}

theorem replay_append (xs ys : EditScript) :
    F.replay trees m (xs ++ ys) = (F.replay trees m xs).replay trees m ys := List.foldl_append

theorem safe_append {xs ys : EditScript} :
    F.Safe trees m (xs ++ ys) ↔
      F.Safe trees m xs ∧ (F.replay trees m xs).Safe trees m ys := by
  induction xs generalizing F with
  | nil => exact ⟨fun h => ⟨trivial, h⟩, fun h => h.2⟩
  | cons a xs ih =>
    show F.Allows trees m a ∧ (F.perform trees m a).Safe trees m (xs ++ ys) ↔ _
    rw [ih, ← and_assoc]
    rfl

theorem safe_singleton : F.Safe trees m [a] ↔ F.Allows trees m a :=
  ⟨fun h => h.1, fun h => ⟨h, trivial⟩⟩

/-- What holds before the first node of a list and is carried from node to node holds at the end. -/
theorem replay_flatMap {l : List Nat} {actions : Nat → EditScript} {Inv : List Nat → Forest → Prop}
    (step : ∀ done x rest F, l = done ++ x :: rest → Inv done F →
      F.Safe trees m (actions x) ∧ Inv (done ++ [x]) (F.replay trees m (actions x)))
    (h : Inv [] F) :
    F.Safe trees m (l.flatMap actions) ∧ Inv l (F.replay trees m (l.flatMap actions)) := by
  suffices hrun : ∀ todo done F, l = done ++ todo → Inv done F →
      F.Safe trees m (todo.flatMap actions) ∧ Inv l (F.replay trees m (todo.flatMap actions)) from
    hrun l [] F rfl h
  intro todo
  induction todo with
  | nil =>
    intro done F hl hinv
    rw [List.append_nil] at hl
    subst hl
    exact ⟨trivial, hinv⟩
  | cons x todo ih =>
    intro done F hl hinv
    obtain ⟨hsafe, hnext⟩ := step done x todo F hl hinv
    have hl' : l = (done ++ [x]) ++ todo := by rw [hl, List.append_assoc, List.singleton_append]
    obtain ⟨hrest, hend⟩ := ih (done ++ [x]) _ hl' hnext
    rw [List.flatMap_cons, replay_append]
    exact ⟨safe_append.mpr ⟨hsafe, hrest⟩, hend⟩

/-- **An allowed action keeps a forest well formed.** -/
theorem WellFormed.perform (h : F.WellFormed) (ha : F.Allows trees m a) :
    (F.perform trees m a).WellFormed := by
  have hparent : ∀ {nodes : List Nat} {parent : Option Nat}, F.CanPlant m nodes parent →
      ∀ q, parent.map m.image = some q → F.Has q := by
    intro nodes parent hcan q hq
    obtain ⟨px, hpx, rfl⟩ := Option.map_eq_some_iff.mp hq
    exact hcan.2 px hpx
  cases a with
  | insertNode x parent _ =>
    refine h.plant ha.1 (hparent ha) fun i hi hne => ?_
    exact absurd (List.mem_singleton.mp hi) hne
  | insertTree x parent _ =>
    refine h.plant ha.1 (hparent ha) fun i hi hne j hj => ?_
    obtain ⟨hx, hxi⟩ := Tree.mem_preOrder_iff.mp hi
    exact Tree.mem_preOrder_iff.mpr ⟨hx, hxi.parent hj hne⟩
  | updateNode s label => exact h.alter fun _ => rfl
  | move s px _ => exact h.move ha.1 ha.2.1 ha.2.2
  | deleteNode s =>
    refine h.uproot fun n e i hn hp hi => ?_
    rw [List.mem_singleton.mp hi] at hp
    exact absurd hp (ha.2 n e hn)
  | deleteTree s =>
    refine h.uproot fun n e i hn hp hi => ?_
    have hwithin : F.Within (.kept s) (.kept i) := (ha.2.1 _).mpr ⟨i, hi, rfl⟩
    exact (ha.2.1 n).mp (.step hn hp hwithin)

/-- **A safe script keeps a forest well formed, and so does each part of it.** -/
theorem WellFormed.replay (h : F.WellFormed) (hsafe : F.Safe trees m script) {done : EditScript}
    (hdone : done <+: script) : (F.replay trees m done).WellFormed := by
  induction done generalizing F script with
  | nil => exact h
  | cons a done ih =>
    obtain ⟨rest, rfl⟩ := hdone
    exact ih (h.perform hsafe.1) hsafe.2 ⟨rest, rfl⟩

end replay

end Forest

end CallDelta
