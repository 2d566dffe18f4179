import LazyQuery.Proofs.Sql.Names
import Mathlib.Data.Option.Basic

/-!
# Answers to the queries of nodes

The query of a node yields the columns of the node, provided that the tables of the store that it reads
have theirs, and that the columns of all nodes it hangs on can be kept (`query_names`). It does not
matter how the query is answered: the named results of its layout are those that are written, up to
conditions that are handed down to them.

`Graph.Shows` is the invariant. It holds of the relations in reach as one named result after the other
is evaluated, and says nothing of tables that are not known: the store can have an old table of a node
that a named result stands for.
-/

set_option autoImplicit false

namespace LazyQuery

open Sql

namespace Sql

/-! ## Named results -/

/-- The names that are known after some named results. -/
def knownAfter (isKnown : String → Bool) (named : List (String × Compound)) : String → Bool :=
  named.foldl (fun isKnown p n => sameName n p.1 || isKnown n) isKnown

theorem knownAfter_of_isKnown {isKnown : String → Bool} {n : String} (h : isKnown n = true)
    (named : List (String × Compound)) : knownAfter isKnown named n = true := by
  induction named generalizing isKnown with
  | nil => exact h
  | cons p rest ih =>
    have hor : (sameName n p.1 || isKnown n) = true := by rw [h, Bool.or_true]
    exact ih hor

theorem names_of_shape_eq {c c' : Compound} (h : c'.map Select.shape = c.map Select.shape) :
    c'.names = c.names := by
  have key (c : Compound) : c.names = (c.map Select.shape).flatMap fun p => p.2.elim [] Input.names := by
    rw [List.flatMap_map]
    rfl
  rw [key, key, h]

/-- The named results that are left of a query are those of the query, up to conditions. -/
def SameShapes : List (String × Compound) → List (String × Compound) → Prop :=
  List.Forall₂ fun p p' => p'.1 = p.1 ∧ p'.2.map Select.shape = p.2.map Select.shape

theorem SameShapes.knownAfter {named named' : List (String × Compound)} (h : SameShapes named named')
    (isKnown : String → Bool) : knownAfter isKnown named' = knownAfter isKnown named := by
  induction h generalizing isKnown with
  | nil => rfl
  | cons hp _ ih =>
    rw [Sql.knownAfter, Sql.knownAfter, List.foldl_cons, List.foldl_cons, hp.1]
    exact ih _

theorem SameShapes.readsOnly {named named' : List (String × Compound)} (h : SameShapes named named')
    (isKnown : String → Bool) (body : Compound) :
    readsOnly isKnown named' body = readsOnly isKnown named body := by
  induction h generalizing isKnown with
  | nil => rfl
  | @cons p p' named named' hp _ ih =>
    obtain ⟨name, c⟩ := p
    obtain ⟨name', c'⟩ := p'
    obtain ⟨rfl, hshape⟩ := hp
    rw [Sql.readsOnly, Sql.readsOnly, names_of_shape_eq hshape, ih]

/-- A layout keeps the named results, up to conditions. -/
theorem named_of_layout? {q : Query} {headings : Catalog} {layout : Layout}
    (h : q.layout? headings = some layout) : SameShapes q.named layout.named := by
  have steps {step : Layout → String × Compound → Option Layout}
      (hstep : ∀ l p l', step l p = some l' → ∃ p' : String × Compound, l'.named = p' :: l.named ∧
        p'.1 = p.1 ∧ p'.2.map Select.shape = p.2.map Select.shape)
      {named : List (String × Compound)} {l l' : Layout} (h : named.foldlM step l = some l') :
      ∃ front, SameShapes named.reverse front ∧ l'.named = front ++ l.named := by
    induction named generalizing l with
    | nil =>
      cases h
      exact ⟨[], .nil, rfl⟩
    | cons p rest ih =>
      rw [List.foldlM_cons] at h
      obtain ⟨m, hm, h⟩ := Option.bind_eq_some_iff.1 h
      obtain ⟨p', hp', hsame⟩ := hstep l p m hm
      obtain ⟨front, hfront, hl⟩ := ih h
      refine ⟨front ++ [p'], ?_, ?_⟩
      · rw [List.reverse_cons]
        exact List.rel_append hfront (.cons hsame .nil)
      · rw [hl, hp', List.append_assoc]
        rfl
  rw [Query.layout?] at h
  obtain ⟨body, -, h⟩ := Option.bind_eq_some_iff.1 h
  have key := fun hstep => steps hstep h
  obtain ⟨front, hfront, hl⟩ := key fun l p l' hl => by
    obtain ⟨name, c⟩ := p
    dsimp only at hl
    split at hl
    · obtain ⟨blocks, -, hl⟩ := Option.bind_eq_some_iff.1 hl
      cases hl
      refine ⟨_, rfl, rfl, ?_⟩
      rw [List.map_map]
      rfl
    · cases hl
      exact ⟨(name, c), rfl, rfl, rfl⟩
  rw [List.reverse_reverse] at hfront
  rw [hl]
  simpa using hfront

end Sql

namespace Graph

variable {g : Graph} {id : NodeId} {isKnown : String → Bool} {catalog : Catalog}

/-- Of the nodes that `id` hangs on, those that are known are there under their columns. -/
def Shows (g : Graph) (id : NodeId) (isKnown : String → Bool) (catalog : Catalog) : Prop :=
  ∀ ⦃t m q⦄, g.DependsOn id t → g.node? t = some m → isKnown m.name = true →
    catalog m.name = some q → q.names = m.columns

/-- The columns of all nodes that `id` hangs on can be kept by tables. -/
def KeepsBelow (g : Graph) (id : NodeId) : Prop :=
  ∀ ⦃t m⦄, g.DependsOn id t → g.node? t = some m → m.schema.IsKept

/-- The named results are statements of nodes that `id` hangs on, up to conditions. -/
def Names (g : Graph) (id : NodeId) (named : List (String × Compound)) : Prop :=
  ∀ p ∈ named, ∃ d m body, g.DependsOn id d ∧ g.node? d = some m ∧ m.op.hasStatement = true ∧
    p.1 = m.name ∧ g.compound d = .ok body ∧ p.2.map Select.shape = body.map Select.shape

theorem Shows.mono {isKnown' : String → Bool} (h : g.Shows id isKnown' catalog)
    (hk : ∀ n, isKnown n = true → isKnown' n = true) : g.Shows id isKnown catalog :=
  fun _ _ _ ht hm hknown => h ht hm (hk _ hknown)

theorem Names.of_sameShapes {named named' : List (String × Compound)} (h : g.Names id named)
    (hs : SameShapes named named') : g.Names id named' := by
  intro p' hp'
  obtain ⟨i, hi, rfl⟩ := List.getElem_of_mem hp'
  have hi' : i < named.length := hs.length_eq ▸ hi
  obtain ⟨hname, hshape⟩ := hs.get hi' hi
  obtain ⟨d, m, body, hd, hm, hst, hn, hbody, hshape'⟩ := h _ (List.getElem_mem hi')
  exact ⟨d, m, body, hd, hm, hst, hname.trans hn, hbody, hshape.trans hshape'⟩

/-- The result of a statement, also with other conditions, has the columns of its node, if what it reads
is known. -/
theorem Shows.compound_names (hg : g.WellFormed) (h : g.Shows id isKnown catalog)
    (hkept : g.KeepsBelow id) {d : NodeId} {n : Node} (hn : g.node? d = some n)
    (hd : ∀ t ∈ n.op.inputs, g.DependsOn id t) (hst : n.op.hasStatement = true) {body c : Compound}
    (hbody : g.compound d = .ok body) (hc : c.map Select.shape = body.map Select.shape)
    (hread : c.names.all isKnown = true) {asked : Bool} {r : Relation}
    (hr : evalCompound? catalog asked c = some r) : r.names = n.columns := by
  obtain ⟨body', hbody', hnames⟩ := compound_spec hg hn hst
  rw [hbody, Except.ok.injEq] at hbody'
  subst hbody'
  have depends {t : NodeId} (ht : t ∈ n.op.tables) : g.DependsOn id t :=
    hd t (Op.mem_inputs_of_mem_tables ht)
  refine Graph.compound_names hg hn hbody hc (fun t ht m hm => (hkept (depends ht) hm).apart)
    (fun t ht m hm q hq => h (depends ht) hm ?_ hq) hr
  rw [names_of_shape_eq hc, hnames, List.all_map, List.all_eq_true] at hread
  rw [name_of_node? hg hm]
  exact hread t ht

/-- **One named result after the other is there under the columns of its node**, whether it is computed
from those before it or from relations that show all of them. -/
theorem Shows.withNamed? (hg : g.WellFormed) (hkept : g.KeepsBelow id)
    {named : List (String × Compound)} (hnamed : g.Names id named) {body : Compound}
    (hread : readsOnly isKnown named body = true) (h : g.Shows id isKnown catalog)
    {asked : String → Bool} {source : String → Catalog → Catalog}
    (hsource : ∀ name before, source name before = before ∨
      g.Shows id (knownAfter isKnown named) (source name before))
    {after : Catalog} (hafter : Sql.withNamed? catalog asked source named = some after) :
    g.Shows id (knownAfter isKnown named) after ∧
      body.names.all (knownAfter isKnown named) = true := by
  induction named generalizing isKnown catalog with
  | nil =>
    cases hafter
    exact ⟨h, hread⟩
  | cons p rest ih =>
    obtain ⟨name, c⟩ := p
    obtain ⟨d, m, compound, hd, hm, hst, hname, hcompound, hshape⟩ := hnamed _ List.mem_cons_self
    subst hname
    rw [readsOnly, Bool.and_eq_true] at hread
    rw [Sql.withNamed?, List.foldlM_cons] at hafter
    obtain ⟨next, hnext, hafter⟩ := Option.bind_eq_some_iff.1 hafter
    obtain ⟨r, hr, hnext⟩ := Option.bind_eq_some_iff.1 hnext
    cases hnext
    have hshows : g.Shows id isKnown ((source m.name catalog).within m.name) := by
      change g.Shows id isKnown (source m.name catalog)
      rcases hsource m.name catalog with hs | hs
      · rwa [hs]
      · exact hs.mono fun n hn => knownAfter_of_isKnown hn _
    have hnames : r.names = m.columns :=
      hshows.compound_names hg hkept hm (fun t ht => hd.step hm ht) hst hcompound hshape hread.1 hr
    refine ih (fun p hp => hnamed p (List.mem_cons_of_mem _ hp)) hread.2 ?_ hsource hafter
    intro t m' q ht hm' hknown hq
    dsimp only at hknown
    simp only [Catalog.extend] at hq
    cases hsame : sameName m'.name m.name with
    | false =>
      rw [hsame, if_neg Bool.false_ne_true] at hq
      rw [hsame, Bool.false_or] at hknown
      exact h ht hm' hknown hq
    | true =>
      rw [hsame, if_pos rfl, Option.some.injEq] at hq
      rw [name_of_node? hg hm', name_of_node? hg hm, sameName_tableName] at hsame
      subst hsame
      rw [hm, Option.some.injEq] at hm'
      subst hm' hq
      rw [names_asTable, hnames]
      exact (hkept hd hm).tableNames _

section

variable {n : Node} {q : Query} {r : Relation}

theorem written_names (hg : g.WellFormed) (hn : g.node? id = some n)
    (hst : n.op.hasStatement = true) (hkept : g.KeepsBelow id)
    (hbody : g.compound id = .ok q.body) (hnamed : g.Names id q.named)
    (hread : readsOnly isKnown q.named q.body = true) (h : g.Shows id isKnown catalog)
    (hr : q.evalAsWritten? catalog = some r) : r.names = n.columns := by
  obtain ⟨after, hafter, hr⟩ := Option.bind_eq_some_iff.1 hr
  obtain ⟨p, hp, hr⟩ := Option.bind_eq_some_iff.1 hr
  obtain ⟨hall, hbodyRead⟩ := h.withNamed? hg hkept hnamed hread (fun _ _ => .inl rfl) hafter
  dsimp only at hr
  split at hr
  · cases hr
  · obtain rfl : p = r := Option.some.inj hr
    exact hall.compound_names hg hkept hn (fun t ht => .input hn ht) hst hbody rfl hbodyRead hp

theorem headings_show (hg : g.WellFormed) (hkept : g.KeepsBelow id) (hnamed : g.Names id q.named)
    (hread : readsOnly isKnown q.named q.body = true) (h : g.Shows id isKnown catalog)
    {headings : Catalog} (hh : q.headings? catalog = some headings) :
    g.Shows id (knownAfter isKnown q.named) headings := by
  have hbare : g.Shows id isKnown catalog.headingsOnly := by
    intro t m p ht hm hknown hp
    obtain ⟨p, hp', rfl⟩ := Option.map_eq_some_iff.1 hp
    exact (h ht hm hknown hp' : p.names = m.columns)
  rw [Query.headings?] at hh
  exact (hbare.withNamed? hg hkept hnamed hread (fun _ _ => .inl rfl) hh).1

theorem layout_names (hg : g.WellFormed) (hn : g.node? id = some n)
    (hst : n.op.hasStatement = true) (hkept : g.KeepsBelow id)
    (hbody : g.compound id = .ok q.body) (hnamed : g.Names id q.named)
    (hread : readsOnly isKnown q.named q.body = true) (h : g.Shows id isKnown catalog)
    {headings : Catalog} (hh : g.Shows id (knownAfter isKnown q.named) headings) {layout : Layout}
    (hlayout : q.layout? headings = some layout)
    (hr : q.evalByLayout? catalog headings layout = some r) : r.names = n.columns := by
  have hsame := named_of_layout? hlayout
  obtain ⟨after, hafter, hr⟩ := Option.bind_eq_some_iff.1 hr
  obtain ⟨p, hp, hr⟩ := Option.bind_eq_some_iff.1 hr
  obtain ⟨hall, hbodyRead⟩ := h.withNamed? hg hkept (hnamed.of_sameShapes hsame)
    ((hsame.readsOnly isKnown q.body).trans hread) (fun name before => by
      rw [hsame.knownAfter]
      dsimp only
      split
      · exact .inr hh
      · exact .inl rfl) hafter
  rw [hsame.knownAfter] at hall hbodyRead
  split at hr
  · cases hr
  · obtain rfl : p = r := Option.some.inj hr
    refine Shows.compound_names hg ?_ hkept hn (fun t ht => .input hn ht) hst hbody rfl hbodyRead hp
    dsimp only
    split
    · exact hh
    · exact hall

/-- **The query of a node yields the columns of the node**, if the tables that it reads have theirs. -/
theorem query_names (hg : g.WellFormed) (hn : g.node? id = some n)
    (hst : n.op.hasStatement = true) (hkept : g.KeepsBelow id)
    (hbody : g.compound id = .ok q.body) (hnamed : g.Names id q.named)
    (hread : readsOnly isKnown q.named q.body = true) (h : g.Shows id isKnown catalog)
    (hr : q.eval? catalog = some r) : r.names = n.columns := by
  rw [Query.eval?] at hr
  simp only [Option.bind_eq_bind, Option.bind_eq_some_iff] at hr
  obtain ⟨headings, hheadings, layout, hlayout, hr⟩ := hr
  have honly : g.Shows id isKnown (catalog.only q.sourceNames) := by
    intro t m p ht hm hknown hp
    simp only [Catalog.only] at hp
    split at hp
    · exact h ht hm hknown hp
    · cases hp
  rcases (Option.orElse_eq_some _ _ _).1 hr with hr | ⟨-, hr⟩
  · split at hr
    · cases hr
    · exact written_names hg hn hst hkept hbody hnamed hread honly hr
  · exact layout_names hg hn hst hkept hbody hnamed hread honly
      (headings_show hg hkept hnamed hread honly hheadings) hlayout hr

end

/-- The named results are the statements of nodes that `id` hangs on. -/
def Defines (g : Graph) (id : NodeId) (named : List (String × Compound)) : Prop :=
  ∀ p ∈ named, ∃ d m, g.DependsOn id d ∧ g.node? d = some m ∧ m.op.hasStatement = true ∧
    m.op.isTable = true ∧ p.1 = m.name ∧ g.compound d = .ok p.2

theorem Defines.names {named : List (String × Compound)} (h : g.Defines id named) :
    g.Names id named := fun p hp => by
  obtain ⟨d, m, hd, hm, hst, -, hname, hbody⟩ := h p hp
  exact ⟨d, m, p.2, hd, hm, hst, hname, hbody, rfl⟩

/-- **What the query of a node names are statements of nodes that it hangs on**, and of tables at that:
a walk never comes to a constant. -/
theorem defines_of_query (hg : g.WellFormed) {v : View} {n : Node} (hn : g.node? id = some n)
    {q : Query} (hq : g.query id v = .ok q) :
    g.compound id = .ok q.body ∧ g.Defines id q.named := by
  obtain ⟨order, horder, ho⟩ := dependencyOrder_spec hg hn .relational v
  rw [query, horder, ok_bind] at hq
  obtain ⟨named, hnamed, hq⟩ := bind_eq_ok.1 hq
  obtain ⟨body, hbody, hq⟩ := bind_eq_ok.1 hq
  cases hq
  refine ⟨hbody, fun p hp => ?_⟩
  obtain ⟨r, hr, rfl⟩ := List.mem_filterMap.1 hp
  obtain ⟨d, hd, hdr⟩ := exists_of_mem_mapM hnamed hr
  obtain ⟨m, hm, -⟩ := bind_eq_ok.1 hdr
  have hm := node_eq_ok.1 hm
  have hrequired := ((ho.mem_iff d).1 hd).1
  rw [namedResult_eq hm] at hdr
  split at hdr
  · cases hdr
  · split at hdr
    · cases hdr
    · rename_i hc hst
      cases hcomp : g.compound d with
      | error e => simp [hcomp, Except.map] at hdr
      | ok c =>
        rw [hcomp] at hdr
        cases hdr
        simp only [Bool.or_eq_true, not_or, Bool.not_eq_true] at hc
        refine ⟨d, m, hrequired.dependsOn, hm, by simpa using hst, ?_, rfl, hcomp⟩
        rw [Op.isTable_eq_not (hrequired.ne_constant hg hm), hc.1]
        rfl

end Graph
end LazyQuery
