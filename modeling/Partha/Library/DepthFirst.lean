import Mathlib.Data.List.Basic
import Mathlib.Logic.Relation

/-!
# Depth-First Search for Cycles

The search in three colours. A vertex is white until it is entered, grey while what it points to
is searched, and black afterwards. An edge to a grey vertex closes a cycle.

The graph is a map from some vertices to those they point to. The others point to nothing and are
not entered. The fuel bounds how deep the search goes, and the vertices of the map are enough.

What carries the search is that the grey vertices lead to the one that is entered, and that the
black ones are accessible, so that no path from them goes on forever.

## Main definitions

* `visit`: The search from a vertex.
* `search`: The search from all of them.
* `Edge`: One vertex points to another.

## Theorems

* `visit_spec`: What a search from a vertex does to the colours.
* `search_spec`: A search ends, with all black if there is no cycle.
-/

namespace DepthFirst

open List

variable {V : Type*} [DecidableEq V]

inductive Color where
  | white
  | grey
  | black
  deriving DecidableEq, Repr

/-- Why a search does not go on. -/
inductive Stop where
  | cycle
  | fuel
  deriving DecidableEq, Repr

abbrev Colors (V : Type*) := V → Color

def paint (c : Colors V) (v : V) (color : Color) : Colors V :=
  fun w => if w = v then color else c w

/-- What a vertex points to. -/
def targets (g : List (V × List V)) (v : V) : List V :=
  (g.lookup v).getD []

/-- What is done about a vertex that is pointed to. -/
def step (g : List (V × List V)) (enter : V → Colors V → Except Stop (Colors V)) (c : Colors V)
    (target : V) : Except Stop (Colors V) :=
  if c target = .grey then .error .cycle
  else if c target = .white ∧ (g.lookup target).isSome then enter target c
  else .ok c

/-- The search from a vertex that is white. -/
def visit (g : List (V × List V)) : Nat → V → Colors V → Except Stop (Colors V)
  | 0, _, _ => .error .fuel
  | fuel + 1, v, c => do
    let c ← (targets g v).foldlM (step g (visit g fuel)) (paint c v .grey)
    .ok (paint c v .black)

/-- The search from the vertices of the map that are white when their turn comes. -/
def search (g : List (V × List V)) (fuel : Nat) : Except Stop (Colors V) :=
  (g.map Prod.fst).foldlM (fun c v => if c v = .white then visit g fuel v c else .ok c)
    (fun _ => .white)

/-- A vertex points to another. -/
def Edge (g : List (V × List V)) (v w : V) : Prop :=
  w ∈ targets g v

section Colors

/-- What a search does to the colours, apart from where it began. -/
structure Kept (c c' : Colors V) : Prop where
  grey : ∀ v, c' v = .grey ↔ c v = .grey
  black : ∀ v, c v = .black → c' v = .black

omit [DecidableEq V] in
theorem Kept.refl (c : Colors V) : Kept c c :=
  ⟨fun _ => Iff.rfl, fun _ h => h⟩

variable {c' : Colors V} {g : List (V × List V)}

omit [DecidableEq V] in
theorem Kept.trans {c c'' : Colors V} (h : Kept c c') (h' : Kept c' c'') : Kept c c'' :=
  ⟨fun v => (h'.grey v).trans (h.grey v), fun v hv => h'.black v (h.black v hv)⟩

omit [DecidableEq V] in
theorem Kept.white {c : Colors V} (h : Kept c c') {v : V} (hv : c' v = .white) : c v = .white := by
  cases hc : c v with
  | white => rfl
  | grey =>
    rw [(h.grey v).mpr hc] at hv
    cases hv
  | black =>
    rw [h.black v hc] at hv
    cases hv

theorem paint_same (c : Colors V) (v : V) (color : Color) : paint c v color v = color :=
  if_pos rfl

theorem paint_other (c : Colors V) {v w : V} (color : Color) (h : w ≠ v) :
    paint c v color w = c w :=
  if_neg h

/-- The vertices of the map that are still to be entered. -/
def whites (g : List (V × List V)) (c : Colors V) : Nat :=
  (g.map Prod.fst).countP (fun v => c v = .white)

theorem countP_lt {α : Type*} {p q : α → Bool} {l : List α} (h : ∀ a ∈ l, p a = true → q a = true)
    {a : α} (ha : a ∈ l) (hq : q a = true) (hp : p a = false) : l.countP p < l.countP q := by
  induction l with
  | nil => cases ha
  | cons b l ih =>
    have hrest : ∀ a ∈ l, p a = true → q a = true := fun a ha => h a (mem_cons_of_mem b ha)
    rw [countP_cons, countP_cons]
    rcases mem_cons.mp ha with rfl | ha
    · have hle : l.countP p ≤ l.countP q := countP_mono_left hrest
      rw [hq, hp, if_pos rfl, if_neg Bool.false_ne_true]
      omega
    · have hlt := ih hrest ha
      have hb := h b mem_cons_self
      by_cases hpb : p b = true
      · rw [if_pos hpb, if_pos (hb hpb)]
        omega
      · rw [if_neg hpb]
        omega

omit [DecidableEq V] in
theorem Kept.whites_le {c : Colors V} (h : Kept c c') (g : List (V × List V)) :
    whites g c' ≤ whites g c :=
  countP_mono_left (fun _ _ hv => decide_eq_true (h.white (of_decide_eq_true hv)))

/-- To enter a vertex leaves fewer of them. -/
theorem whites_paint {c : Colors V} {v : V} {color : Color} (hv : v ∈ g.map Prod.fst)
    (hwhite : c v = .white) (hcolor : color ≠ .white) :
    whites g (paint c v color) < whites g c := by
  refine countP_lt (fun w _ hw => ?_) hv (decide_eq_true hwhite) ?_
  · have hw := of_decide_eq_true hw
    by_cases hwv : w = v
    · rw [hwv, paint_same] at hw
      exact absurd hw hcolor
    · rw [paint_other c color hwv] at hw
      exact decide_eq_true hw
  · rw [paint_same]
    exact decide_eq_false hcolor

theorem lookup_isSome {v : V} (h : (g.lookup v).isSome = true) : v ∈ g.map Prod.fst := by
  rcases lookup_isSome_iff.mp h with ⟨p, hp, hv⟩
  exact mem_map.mpr ⟨p, hp, (eq_of_beq hv).symm⟩

end Colors

section Search

variable {v : V} {fuel : Nat}

/-- The edges of a map that has each of its vertices once. -/
theorem edge_iff {g : List (V × List V)} (h : (g.map Prod.fst).Nodup) {w : V} :
    Edge g v w ↔ ∃ ts, (v, ts) ∈ g ∧ w ∈ ts := by
  induction g with
  | nil => exact iff_of_false not_mem_nil (fun h => absurd h.choose_spec.1 not_mem_nil)
  | cons p g ih =>
    rcases p with ⟨u, us⟩
    rw [map_cons, nodup_cons] at h
    by_cases hv : v = u
    · have hlookup : targets ((u, us) :: g) v = us := by
        rw [targets, hv, lookup_cons_self, Option.getD_some]
      rw [Edge, hlookup]
      constructor
      · exact fun hw => ⟨us, by rw [hv]; exact mem_cons_self, hw⟩
      · rintro ⟨ts, hts, hw⟩
        rcases mem_cons.mp hts with heq | hts
        · rw [← (Prod.mk.inj heq).2]
          exact hw
        · rw [hv] at hts
          exact absurd (mem_map_of_mem (f := Prod.fst) hts) h.1
    · have hlookup : Edge ((u, us) :: g) v w ↔ Edge g v w := by
        rw [Edge, Edge, targets, targets, lookup_cons, beq_eq_false_iff_ne.mpr hv]
      rw [hlookup, ih h.2]
      refine exists_congr (fun ts => and_congr_left (fun _ => ?_))
      rw [mem_cons, Prod.mk.injEq, or_iff_right (fun hu => hv hu.1)]

variable {g : List (V × List V)}

/-- The vertices that are done with lead nowhere forever. -/
def Sound (g : List (V × List V)) (c : Colors V) : Prop :=
  ∀ v, c v = .black → Acc (fun w v => Edge g v w) v

/-- A search that answers with colours that satisfy something, or that there is a cycle. -/
def Answers (g : List (V × List V)) (r : Except Stop (Colors V)) (P : Colors V → Prop) : Prop :=
  (∃ c, r = .ok c ∧ P c) ∨ r = .error .cycle ∧ ∃ v, Relation.TransGen (Edge g) v v

/-- A vertex that can be entered: it is white, and the grey ones lead to it. -/
structure Enterable (g : List (V × List V)) (c : Colors V) (v : V) : Prop where
  white : c v = .white
  known : (g.lookup v).isSome = true
  grey : ∀ u, c u = .grey → Relation.TransGen (Edge g) u v
  sound : Sound g c

/-- What the search from a vertex leaves. -/
structure Visited (g : List (V × List V)) (c : Colors V) (v : V) (c' : Colors V) : Prop where
  kept : Kept c c'
  done : c' v = .black
  sound : Sound g c'

/-- The targets of a vertex are searched one after the other, if each of them can be. -/
theorem foldlM_spec {enter : V → Colors V → Except Stop (Colors V)} {n : Nat}
    (henter : ∀ w c, Enterable g c w → whites g c ≤ n → Answers g (enter w c) (Visited g c w)) :
    ∀ (ts : List V) (c : Colors V), (∀ t ∈ ts, Edge g v t) → Sound g c → whites g c ≤ n →
      (∀ u, c u = .grey → Relation.ReflTransGen (Edge g) u v) →
      Answers g (ts.foldlM (step g enter) c) (fun c' => Kept c c' ∧ Sound g c' ∧
        ∀ t ∈ ts, c' t = .black ∨ g.lookup t = none) := by
  intro ts
  induction ts with
  | nil =>
    intro c _ hsound _ _
    exact .inl ⟨c, rfl, Kept.refl c, hsound, fun t ht => absurd ht not_mem_nil⟩
  | cons t ts ih =>
    intro c hedges hsound hfuel hgrey
    have hedge := hedges t mem_cons_self
    have hlater : ∀ u ∈ ts, Edge g v u := fun u hu => hedges u (mem_cons_of_mem t hu)
    rw [foldlM_cons]
    -- What is left to do once the first target is done with.
    have hrest : ∀ c', Kept c c' → Sound g c' → (c' t = .black ∨ g.lookup t = none) →
        Answers g (ts.foldlM (step g enter) c') (fun c'' => Kept c c'' ∧ Sound g c'' ∧
          ∀ u ∈ t :: ts, c'' u = .black ∨ g.lookup u = none) := by
      intro c' hkept hsound' ht
      rcases ih c' hlater hsound' (Nat.le_trans (hkept.whites_le g) hfuel)
        (fun u hu => hgrey u ((hkept.grey u).mp hu)) with
        ⟨c'', hok, hkept', hsound'', hts⟩ | hcycle
      · refine .inl ⟨c'', hok, hkept.trans hkept', hsound'', fun u hu => ?_⟩
        rcases mem_cons.mp hu with rfl | hu
        · exact ht.imp_left (hkept'.black u)
        · exact hts u hu
      · exact .inr hcycle
    rw [step]
    by_cases htgrey : c t = .grey
    · rw [if_pos htgrey]
      exact .inr ⟨rfl, t, Relation.TransGen.tail' (hgrey t htgrey) hedge⟩
    rw [if_neg htgrey]
    by_cases hwhite : c t = .white ∧ (g.lookup t).isSome = true
    · rw [if_pos hwhite]
      rcases henter t c ⟨hwhite.1, hwhite.2,
        fun u hu => Relation.TransGen.tail' (hgrey u hu) hedge, hsound⟩ hfuel with
        ⟨c', hok, hvisited⟩ | ⟨herror, hcycle⟩
      · rw [hok]
        exact hrest c' hvisited.kept hvisited.sound (.inl hvisited.done)
      · rw [herror]
        exact .inr ⟨rfl, hcycle⟩
    · rw [if_neg hwhite]
      refine hrest c (Kept.refl c) hsound ?_
      cases ht : c t with
      | white =>
        exact .inr (Option.not_isSome_iff_eq_none.mp (fun hknown => hwhite ⟨ht, hknown⟩))
      | grey => exact absurd ht htgrey
      | black => exact .inl rfl

/-- A vertex is done with when what it points to is. -/
theorem acc_of_targets {c : Colors V} (hsound : Sound g c)
    (h : ∀ t ∈ targets g v, c t = .black ∨ g.lookup t = none) : Acc (fun w v => Edge g v w) v := by
  refine Acc.intro v (fun t ht => ?_)
  rcases h t ht with hblack | hnone
  · exact hsound t hblack
  · refine Acc.intro t (fun u hu => ?_)
    rw [Edge, targets, hnone] at hu
    cases hu

/-- What a search from a vertex does to the colours, if there is fuel for those that are white. -/
theorem visit_spec (fuel : Nat) : ∀ (v : V) (c : Colors V), Enterable g c v →
    whites g c ≤ fuel → Answers g (visit g fuel v c) (Visited g c v) := by
  induction fuel with
  | zero =>
    intro v c h hfuel
    have hfewer := @whites_paint V _ g c v .grey (lookup_isSome h.known) h.white
      (fun h => by cases h)
    omega
  | succ fuel ih =>
    intro v c h hfuel
    have hfewer := @whites_paint V _ g c v .grey (lookup_isSome h.known) h.white
      (fun h => by cases h)
    have hkept : ∀ u, u ≠ v → paint c v .grey u = c u := fun u hu => paint_other c .grey hu
    -- painting the vertex grey makes nothing black, and all grey vertices lead to it
    have hsound : Sound g (paint c v .grey) := by
      intro u hu
      by_cases huv : u = v
      · rw [huv, paint_same] at hu
        cases hu
      · rw [hkept u huv] at hu
        exact h.sound u hu
    have hgrey : ∀ u, paint c v .grey u = .grey → Relation.ReflTransGen (Edge g) u v := by
      intro u hu
      by_cases huv : u = v
      · rw [huv]
      · rw [hkept u huv] at hu
        exact (h.grey u hu).to_reflTransGen
    rw [visit]
    rcases foldlM_spec ih (targets g v) (paint c v .grey) (fun t ht => ht) hsound (by omega)
      hgrey with ⟨c', hok, hafter, hsound', hdone⟩ | ⟨herror, hcycle⟩
    -- all targets are done without a cycle, so the vertex is accessible and may be black
    · rw [hok]
      refine .inl ⟨paint c' v .black, rfl, ⟨fun u => ?_, fun u hu => ?_⟩,
        paint_same c' v .black, fun u hu => ?_⟩
      · by_cases huv : u = v
        · rw [huv, paint_same, h.white]
          exact iff_of_false (fun h => by cases h) (fun h => by cases h)
        · rw [paint_other c' .black huv, hafter.grey, hkept u huv]
      · by_cases huv : u = v
        · rw [huv, paint_same]
        · rw [paint_other c' .black huv]
          exact hafter.black u (by rw [hkept u huv]; exact hu)
      · by_cases huv : u = v
        · rw [huv]
          exact acc_of_targets hsound' hdone
        · rw [paint_other c' .black huv] at hu
          exact hsound' u hu
    · rw [herror]
      exact .inr ⟨rfl, hcycle⟩

/-- From an accessible vertex no path comes back. -/
theorem not_cycle (h : Acc (fun w v => Edge g v w) v) : ¬ Relation.TransGen (Edge g) v v := by
  induction h with
  | intro v _ ih =>
    intro hcycle
    rcases Relation.TransGen.head'_iff.mp hcycle with ⟨w, hedge, hback⟩
    exact ih w hedge (Relation.TransGen.tail' hback hedge)

/-- The vertices of the map, one after the other, with none of them grey in between. -/
theorem search_vertices (hfuel : g.length ≤ fuel) : ∀ (vs : List V) (c : Colors V),
    (∀ v ∈ vs, (g.lookup v).isSome = true) → Sound g c → (∀ u, c u ≠ .grey) →
      Answers g (vs.foldlM (fun c v => if c v = .white then visit g fuel v c else .ok c) c)
        (fun c' => Kept c c' ∧ Sound g c' ∧ ∀ v ∈ vs, c' v = .black) := by
  intro vs
  induction vs with
  | nil =>
    intro c _ hsound _
    exact .inl ⟨c, rfl, Kept.refl c, hsound, fun v hv => absurd hv not_mem_nil⟩
  | cons v vs ih =>
    intro c hknown hsound hgrey
    have hrest : ∀ c', Kept c c' → Sound g c' → c' v = .black →
        Answers g (vs.foldlM (fun c v => if c v = .white then visit g fuel v c else .ok c) c')
          (fun c'' => Kept c c'' ∧ Sound g c'' ∧ ∀ w ∈ v :: vs, c'' w = .black) := by
      intro c' hkept hsound' hv
      rcases ih c' (fun w hw => hknown w (mem_cons_of_mem v hw)) hsound'
        (fun u hu => hgrey u ((hkept.grey u).mp hu)) with
        ⟨c'', hok, hkept', hsound'', hvs⟩ | hcycle
      · refine .inl ⟨c'', hok, hkept.trans hkept', hsound'', fun w hw => ?_⟩
        rcases mem_cons.mp hw with rfl | hw
        · exact hkept'.black w hv
        · exact hvs w hw
      · exact .inr hcycle
    rw [foldlM_cons]
    cases hv : c v with
    | white =>
      have hbound : whites g c ≤ fuel :=
        Nat.le_trans countP_le_length (by rw [length_map]; exact hfuel)
      rw [if_pos rfl]
      rcases visit_spec fuel v c ⟨hv, hknown v mem_cons_self,
        fun u hu => absurd hu (hgrey u), hsound⟩ hbound with
        ⟨c', hok, hvisited⟩ | ⟨herror, hcycle⟩
      · rw [hok]
        exact hrest c' hvisited.kept hvisited.sound hvisited.done
      · rw [herror]
        exact .inr ⟨rfl, hcycle⟩
    | grey => exact absurd hv (hgrey v)
    | black =>
      rw [if_neg (fun h => by cases h)]
      exact hrest c (Kept.refl c) hsound hv

/-- A search ends, and it succeeds iff there is no cycle. -/
theorem search_spec (hfuel : g.length ≤ fuel) :
    (∃ c, search g fuel = .ok c ∧ ∀ v, ¬ Relation.TransGen (Edge g) v v) ∨
      search g fuel = .error .cycle ∧ ∃ v, Relation.TransGen (Edge g) v v := by
  have hknown : ∀ v ∈ g.map Prod.fst, (g.lookup v).isSome = true := by
    intro v hv
    rcases mem_map.mp hv with ⟨p, hp, rfl⟩
    exact lookup_isSome_iff.mpr ⟨p, hp, beq_self_eq_true p.1⟩
  rcases search_vertices hfuel (g.map Prod.fst) (fun _ => .white) hknown (fun v hv => by cases hv)
    (fun u hu => by cases hu) with ⟨c, hok, -, hsound, hblack⟩ | hcycle
  · refine .inl ⟨c, hok, fun v hcycle => ?_⟩
    rcases Relation.TransGen.head'_iff.mp hcycle with ⟨w, hedge, -⟩
    -- What lies on a cycle points to something, so it is a vertex of the map.
    cases hv : g.lookup v with
    | none =>
      rw [Edge, targets, hv] at hedge
      cases hedge
    | some ts =>
      have hmem := lookup_isSome (g := g) (v := v) (by rw [hv]; rfl)
      exact not_cycle (hsound v (hblack v hmem)) hcycle
  · exact .inr hcycle

end Search

end DepthFirst
