import Mathlib.Data.UInt

/-!
# Groups joined by edges

Two nodes are connected when a chain of edges, each taken in either direction,
leads from one to the other. A label tells the groups apart when two nodes carry
the same label exactly if they are connected: joining two groups by an edge is
giving the nodes of the one the label of the other, and appending the list of the
nodes of the one label to that of the other.
-/

namespace Obi.Lib

variable {α κ : Type _}

def Connected (edges : List (α × α)) : α → α → Prop := Relation.EqvGen fun a b => (a, b) ∈ edges

variable {edges : List (α × α)} {a b x y z : α}

theorem connected_refl (x : α) : Connected edges x x := .refl x

theorem Connected.symm (h : Connected edges x y) : Connected edges y x := Relation.EqvGen.symm _ _ h

theorem Connected.trans (h : Connected edges x y) (h' : Connected edges y z) :
    Connected edges x z :=
  Relation.EqvGen.trans _ _ _ h h'

/-- A new edge connects what it joins, and nothing else. -/
theorem connected_concat : Connected (edges ++ [(a, b)]) x y ↔
    Connected edges x y ∨ (Connected edges x a ∧ Connected edges b y) ∨
      (Connected edges x b ∧ Connected edges a y) := by
  constructor
  · intro h
    induction h with
    | rel x y hxy =>
      rcases List.mem_append.mp hxy with hold | hnew
      · exact .inl (.rel _ _ hold)
      · obtain ⟨rfl, rfl⟩ := Prod.mk.inj (List.mem_singleton.mp hnew)
        exact .inr (.inl ⟨connected_refl _, connected_refl _⟩)
    | refl x => exact .inl (connected_refl x)
    | symm x y _ ih =>
      rcases ih with h | ⟨h, h'⟩ | ⟨h, h'⟩
      · exact .inl h.symm
      · exact .inr (.inr ⟨h'.symm, h.symm⟩)
      · exact .inr (.inl ⟨h'.symm, h.symm⟩)
    | trans x y z _ _ ihxy ihyz =>
      rcases ihxy with h | ⟨hxa, hby⟩ | ⟨hxb, hay⟩
      · rcases ihyz with k | ⟨hya, hbz⟩ | ⟨hyb, haz⟩
        · exact .inl (h.trans k)
        · exact .inr (.inl ⟨h.trans hya, hbz⟩)
        · exact .inr (.inr ⟨h.trans hyb, haz⟩)
      · rcases ihyz with k | ⟨_, hbz⟩ | ⟨_, haz⟩
        · exact .inr (.inl ⟨hxa, hby.trans k⟩)
        · exact .inr (.inl ⟨hxa, hbz⟩)
        · exact .inl (hxa.trans haz)
      · rcases ihyz with k | ⟨_, hbz⟩ | ⟨_, haz⟩
        · exact .inr (.inr ⟨hxb, hay.trans k⟩)
        · exact .inl (hxb.trans hbz)
        · exact .inr (.inr ⟨hxb, haz⟩)
  · have hold : ∀ {x y}, Connected edges x y → Connected (edges ++ [(a, b)]) x y := fun h =>
      Relation.EqvGen.mono (fun _ _ he => List.mem_append_left _ he) _ _ h
    have hnew : Connected (edges ++ [(a, b)]) a b :=
      .rel _ _ (List.mem_append_right _ List.mem_cons_self)
    rintro (h | ⟨h, h'⟩ | ⟨h, h'⟩)
    · exact hold h
    · exact ((hold h).trans hnew).trans (hold h')
    · exact ((hold h).trans hnew.symm).trans (hold h')

/-- What every edge keeps inside, connection keeps inside. -/
theorem Connected.mem {S : α → Prop} (hedges : ∀ e ∈ edges, S e.1 ∧ S e.2)
    (h : Connected edges x y) : S x ↔ S y := by
  induction h with
  | rel x y hxy => exact iff_of_true (hedges _ hxy).1 (hedges _ hxy).2
  | refl x => exact Iff.rfl
  | symm x y _ ih => exact ih.symm
  | trans x y z _ _ ihxy ihyz => exact ihxy.trans ihyz

/-- A node on no edge is alone in its group. -/
theorem Connected.eq_of_isolated (hedges : ∀ e ∈ edges, e.1 ≠ x ∧ e.2 ≠ x)
    (h : Connected edges x y) : y = x := by
  by_contra hne
  exact (Connected.mem (S := fun z => z ≠ x) hedges h).mpr hne rfl

/-- Among the nodes of `S`, the label of a node is the label of its group. -/
def Labels (edges : List (α × α)) (S : α → Prop) (f : α → κ) : Prop :=
  ∀ x y, S x → S y → (f x = f y ↔ Connected edges x y)

variable {S : α → Prop} {f : α → κ} {n : α} {k : κ}

theorem Labels.congr {g : α → κ} (hf : Labels edges S f) (heq : ∀ x, S x → g x = f x) :
    Labels edges S g := by
  intro x y hx hy
  rw [heq x hx, heq y hy]
  exact hf x y hx hy

theorem Labels.concat [DecidableEq κ] (hf : Labels edges S f) (ha : S a) (hb : S b) :
    Labels (edges ++ [(a, b)]) S fun x => if f x = f a then f b else f x := by
  intro x y hx hy
  rw [connected_concat, ← hf x y hx hy, ← hf x a hx ha, ← hf b y hb hy, ← hf x b hx hb,
    ← hf a y ha hy]
  by_cases hxa : f x = f a <;> by_cases hya : f y = f a
  · simp [hxa, hya]
  · have hay : ¬ f a = f y := fun h => hya h.symm
    simp [hxa, hya, hay]
  · simp [hxa, hya]
  · have hay : ¬ f a = f y := fun h => hya h.symm
    simp [hxa, hya, hay]

theorem Labels.fresh [DecidableEq α] (hf : Labels edges S f)
    (hedges : ∀ e ∈ edges, S e.1 ∧ S e.2) (hn : ¬ S n)
    (hk : ∀ x, S x → f x ≠ k) :
    Labels edges (fun x => S x ∨ x = n) (Function.update f n k) := by
  have hiso : ∀ e ∈ edges, e.1 ≠ n ∧ e.2 ≠ n := fun e he =>
    ⟨fun h => hn (h ▸ (hedges e he).1), fun h => hn (h ▸ (hedges e he).2)⟩
  have hold : ∀ x, S x → x ≠ n := fun x hx h => hn (h ▸ hx)
  rintro x y (hx | rfl) (hy | rfl)
  · rw [Function.update_of_ne (hold x hx), Function.update_of_ne (hold y hy)]
    exact hf x y hx hy
  · rw [Function.update_of_ne (hold x hx), Function.update_self]
    refine iff_of_false (hk x hx) fun h => ?_
    exact hold x hx (Connected.eq_of_isolated hiso h.symm)
  · rw [Function.update_of_ne (hold y hy), Function.update_self]
    refine iff_of_false (fun h => hk y hy h.symm) fun h => ?_
    exact hold y hy (Connected.eq_of_isolated hiso h)
  · exact iff_of_true rfl (connected_refl _)

/-- The list holds the nodes of `S` with the label `k`, each once. -/
def Collects (S : α → Prop) (f : α → κ) (nodes : List α) (k : κ) : Prop :=
  nodes.Nodup ∧ ∀ x, x ∈ nodes ↔ S x ∧ f x = k

/-- A new node goes to the list of its label. -/
theorem Collects.concat [DecidableEq κ] {R : α → Prop} {g : α → κ} {nodes : List α}
    (h : Collects S f nodes k) (hn : ¬ S n) (hS : ∀ x, R x ↔ S x ∨ x = n)
    (hg : ∀ x, S x → g x = f x) :
    Collects R g (nodes ++ if k = g n then [n] else []) k := by
  have hfresh : n ∉ nodes := fun hmem => hn ((h.2 n).mp hmem).1
  refine ⟨List.nodup_append.mpr ⟨h.1, by split <;> simp, ?_⟩, fun x => ?_⟩
  · intro a ha b hb hab
    have hbn : b = n := by
      split at hb
      · exact List.mem_singleton.mp hb
      · cases hb
    exact hfresh (hbn ▸ hab ▸ ha)
  · rw [List.mem_append, h.2, hS, or_and_right]
    refine or_congr (and_congr_right fun hx => by rw [hg x hx]) ?_
    split
    · next hk =>
      rw [List.mem_singleton]
      exact ⟨fun hx => ⟨hx, by rw [hx, hk]⟩, fun hx => hx.1⟩
    · next hk => exact iff_of_false List.not_mem_nil fun hx => hk (by rw [← hx.2, hx.1])

theorem collects_nil (hk : ∀ x, S x → f x ≠ k) : Collects S f [] k :=
  ⟨List.nodup_nil, fun x => iff_of_false List.not_mem_nil fun hx => hk x hx.1 hx.2⟩

variable [DecidableEq κ] {g : α → κ} {src dst : κ} {nodes moved : List α}
  (hg : ∀ x, S x → g x = if f x = src then dst else f x)
include hg

theorem collects_src (hne : src ≠ dst) : Collects S g [] src := by
  refine collects_nil fun x hx heq => ?_
  rw [hg x hx] at heq
  split at heq
  · exact hne heq.symm
  · next hx => exact hx heq

theorem Collects.append (hne : src ≠ dst) (hdst : Collects S f nodes dst)
    (hsrc : Collects S f moved src) : Collects S g (nodes ++ moved) dst := by
  refine ⟨List.nodup_append.mpr ⟨hdst.1, hsrc.1, ?_⟩, fun x => ?_⟩
  · intro x hx y hy hxy
    subst hxy
    exact hne (((hsrc.2 x).mp hy).2.symm.trans ((hdst.2 x).mp hx).2)
  rw [List.mem_append, hdst.2, hsrc.2, ← and_or_left]
  refine and_congr_right fun hx => ?_
  rw [hg x hx]
  split
  · next hxs => exact iff_of_true (.inr hxs) rfl
  · next hxs => simp [hxs]

theorem Collects.other (hsrc : k ≠ src) (hdst : k ≠ dst) (h : Collects S f nodes k) :
    Collects S g nodes k := by
  refine ⟨h.1, fun x => ?_⟩
  rw [h.2]
  refine and_congr_right fun hx => ?_
  rw [hg x hx]
  split
  · next hxs => exact iff_of_false (fun h => hsrc (h.symm.trans hxs)) fun h => hdst h.symm
  · rfl

end Obi.Lib
