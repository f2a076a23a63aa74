import Mathlib.Data.List.Nodup
import SqlCompiler.Proofs.Allocation
import SqlCompiler.Proofs.Sights
import SqlCompiler.Query.Rename

/-!
# Fresh symbols for the generators of a query

A reference means a generator: the nearest one, on the way up from the reference, that binds its
symbol and is in sight of the place where the reference stands.  `Query.resolutions` lists the
references of a query by their places, each with the generator that it means, as a place and not as
a symbol.  Renaming the generators of a query must not change that list.

Renaming goes down the tree and stops at a query that binds a renamed symbol again, for all of its
children.  But the source of a generator does not see the generators from its own on, so a reference
in it may still mean the renamed one.  The symbols of such references are in `Query.hidden`, and the
conversion succeeds exactly if there are none.

* `Node.resolutions`, `Query.resolutions` — the generators that references mean.
* `Renaming.apply_without` — a renaming inside a query that binds some of its symbols again.
* `Node.hidden`, `Query.hidden` — the symbols that a renaming misses.
* `Node.resolutions_rename` — a renaming to new symbols that misses none keeps every meaning.
* `Node.mem_freeSymbols_of_hidden` — a symbol that it misses is left over.
* `Query.Converts` — a query with other symbols for its generators, and the same in every other
  respect.
* `Query.refresh_converts_iff` — when fresh symbols convert a query.
-/

set_option autoImplicit false
namespace SqlCompiler

/-! ## The generators that references mean -/

/-- The way from the root of a tree down to a node, by the positions among the children; the last
step comes first. -/
abbrev Path := List Nat

/-- A generator as a place: the path of its query and its position there. -/
structure Occurrence where
  query : Path
  position : Nat
deriving DecidableEq

/-- The generators that symbols mean. -/
abbrev Meaning := Symbol → Option Occurrence

/-- The meaning of symbols in sight of the first generators of a query, which bind `seen`. -/
def Meaning.bind (meaning : Meaning) (query : Path) (seen : List Symbol) : Meaning := fun s =>
  if s ∈ seen then some ⟨query, seen.idxOf s⟩ else meaning s

section
variable {meaning : Meaning} {query : Path} {seen : List Symbol} {s : Symbol}

theorem Meaning.bind_of_mem (h : s ∈ seen) :
    meaning.bind query seen s = some ⟨query, seen.idxOf s⟩ :=
  if_pos h

theorem Meaning.bind_of_not_mem (h : s ∉ seen) : meaning.bind query seen s = meaning s :=
  if_neg h

end

/-- The references of a tree in the order of its text, each with its place and the generator that
it means. -/
def Node.resolutions : Node → Path → Meaning → List (Path × Option Occurrence) :=
  fold fun s path meaning => match s.referent? with
    | some source => [(path, meaning source)]
    | none => s.sights.zipIdx.flatMap fun child =>
      child.1.2.2 (child.2 :: path) (meaning.bind path child.1.1)

/-- The references of a query, in the order of its text. -/
def Query.resolutions (q : Query) : List (Path × Option Occurrence) :=
  (Node.query q).resolutions [] fun _ => none

namespace Node

theorem resolutions_of_referent {t : Shape Node} {s : Symbol} (ht : t.referent? = some s)
    (path : Path) (meaning : Meaning) : (mk t).resolutions path meaning = [(path, meaning s)] := by
  rw [resolutions, fold_mk, Shape.referent?_map, ht]

theorem resolutions_of_sights {t : Shape Node} (ht : t.referent? = none) (path : Path)
    (meaning : Meaning) :
    (mk t).resolutions path meaning = t.sights.zipIdx.flatMap fun child =>
      child.1.2.resolutions (child.2 :: path) (meaning.bind path child.1.1) := by
  rw [resolutions, fold_mk, Shape.referent?_map, ht, Shape.sights_map, List.zipIdx_map,
    List.flatMap_map]
  rfl

end Node

/-! ## Renamings -/

namespace Renaming

variable {r : Renaming} {s : Symbol}

theorem foldl_of_not_mem (h : s ∉ r.map Prod.fst) (start : Symbol) :
    r.foldl (fun result pair => if pair.1 = s then pair.2 else result) start = start := by
  induction r generalizing start with
  | nil => rfl
  | cons pair r ih =>
    rw [List.map_cons, List.mem_cons, not_or] at h
    rw [List.foldl_cons, if_neg (Ne.symm h.1), ih h.2]

theorem apply_of_not_mem (h : s ∉ r.map Prod.fst) : r.apply s = s :=
  foldl_of_not_mem h s

/-- **Inside a query that binds some symbols again, these are not renamed.** -/
theorem apply_without (hidden : List Symbol) :
    (r.without hidden).apply s = if s ∈ hidden then s else r.apply s := by
  by_cases hs : s ∈ hidden
  · have hgone : s ∉ (r.without hidden).map Prod.fst := by
      simp [without, hs]
    rw [if_pos hs, apply_of_not_mem hgone]
  · rw [if_neg hs, apply, apply, without, List.foldl_filter]
    congr 1
    funext result pair
    by_cases hpair : pair.1 = s
    · simp [hpair, hs]
    · simp [hpair]

/-- Different symbols are renamed one by one. -/
theorem map_apply_zip {l l' : List Symbol} (hl : l.Nodup) (hlength : l.length = l'.length) :
    l.map (apply (l.zip l')) = l' := by
  induction l generalizing l' with
  | nil => exact (List.eq_nil_of_length_eq_zero hlength.symm).symm
  | cons a l ih =>
    obtain ⟨b, l', rfl⟩ := List.exists_cons_of_length_eq_add_one hlength.symm
    obtain ⟨ha, hl⟩ := List.nodup_cons.mp hl
    have hzip : ∀ s, s ∉ l → s ∉ (l.zip l').map Prod.fst := by
      intro s hs hmem
      obtain ⟨pair, hpair, rfl⟩ := List.mem_map.mp hmem
      exact hs (List.of_mem_zip hpair).1
    have hhead : apply ((a :: l).zip (b :: l')) a = b := by
      rw [List.zip_cons_cons, apply, List.foldl_cons, if_pos rfl, foldl_of_not_mem (hzip a ha)]
    have htail : ∀ s ∈ l, apply ((a :: l).zip (b :: l')) s = apply (l.zip l') s := by
      intro s hs
      rw [List.zip_cons_cons, apply, List.foldl_cons, if_neg (ne_of_mem_of_not_mem hs ha).symm]
      rfl
    rw [List.map_cons, hhead, List.map_congr_left htail, ih hl (Nat.succ.inj hlength)]

end Renaming

namespace Node

theorem rename_row (s : Symbol) (r : Renaming) : (row s).rename r = row (r.apply s) := by
  rw [rename, fold_mk]
  rfl

theorem rename_column (s : Symbol) (name : String) (r : Renaming) :
    (column s name).rename r = column (r.apply s) name := by
  rw [rename, fold_mk]
  rfl

theorem rename_of_referent {t : Shape Node} {s : Symbol} (ht : t.referent? = some s)
    (r : Renaming) : ∃ t', (mk t).rename r = mk t' ∧ t'.referent? = some (r.apply s) := by
  cases t with
  | row source => cases ht; exact ⟨_, rename_row s r, rfl⟩
  | column source name => cases ht; exact ⟨_, rename_column s name r, rfl⟩
  | _ => cases ht

/-- A node that is no reference is renamed child by child, but for the symbols that it binds. -/
theorem rename_of_sights {t : Shape Node} (ht : t.referent? = none) (r : Renaming) :
    (mk t).rename r = mk (t.map fun n => n.rename (r.without t.bound)) := by
  have hall : r.without [] = r := by
    simp [Renaming.without]
  have hmap : ∀ f : Node → Node × (Renaming → Node),
      (t.map f).map (fun n => n.2 r) = t.map fun n => (f n).2 (r.without []) := by
    intro f
    rw [Shape.map_map, hall]
    rfl
  rw [rename, fold_mk]
  cases t with
  | query q =>
    simp only [Shape.map, Clauses.map_map, Clauses.binders_map, Shape.bound]
    rfl
  | row _ | column _ _ => cases ht
  | _ => exact congrArg mk (hmap _)

/-- The symbols that a renaming misses: they are free in a child of a query, which does not see
them bound, but the query binds them again. -/
def hidden : Node → List Symbol :=
  fold fun s => s.sights.flatMap fun child =>
    (child.2.2 ++ child.2.1.freeSymbols.filter (· ∈ s.bound)).filter (· ∉ child.1)

theorem mem_hidden_iff {t : Shape Node} {a : Symbol} :
    a ∈ (mk t).hidden ↔ ∃ seen n, (seen, n) ∈ t.sights ∧ a ∉ seen
      ∧ (a ∈ n.hidden ∨ a ∈ n.freeSymbols ∧ a ∈ t.bound) := by
  rw [hidden, fold_mk, Shape.sights_map, List.flatMap_map, Shape.bound_map, List.mem_flatMap,
    Prod.exists]
  refine exists_congr fun seen => exists_congr fun n => and_congr_right fun _ => ?_
  rw [List.mem_filter, List.mem_append, List.mem_filter, decide_eq_true_iff, decide_eq_true_iff,
    and_comm]
  rfl

theorem hidden_subset_freeSymbols : ∀ n : Node, n.hidden ⊆ n.freeSymbols := by
  refine Node.induct fun t ih a ha => ?_
  obtain ⟨seen, n, hmem, hseen, h⟩ := mem_hidden_iff.mp ha
  have ht := Shape.referent?_of_sights hmem
  have hn : a ∈ n.freeSymbols := h.elim (ih n (Shape.mem_children_of_sights hmem) ·) And.left
  exact (mem_freeSymbols_iff_sights ht).mpr ⟨seen, n, hmem, hn, hseen⟩

theorem mem_freeSymbols_rename_iff {t : Shape Node} (ht : t.referent? = none) {r : Renaming}
    {a : Symbol} :
    a ∈ ((mk t).rename r).freeSymbols ↔ ∃ seen n, (seen, n) ∈ t.sights
      ∧ a ∈ (n.rename (r.without t.bound)).freeSymbols ∧ a ∉ seen := by
  rw [rename_of_sights ht, mem_freeSymbols_iff_sights (by rwa [Shape.referent?_map]),
    Shape.sights_map]
  simp only [List.mem_map, Prod.exists, Prod.map, id, Prod.mk.injEq]
  constructor
  · rintro ⟨_, _, ⟨seen, n, hmem, rfl, rfl⟩, h⟩
    exact ⟨seen, n, hmem, h⟩
  · rintro ⟨seen, n, hmem, h⟩
    exact ⟨_, _, ⟨seen, n, hmem, rfl, rfl⟩, h⟩

/-- A symbol that is not renamed is still free after the renaming. -/
theorem mem_freeSymbols_of_unrenamed {a : Symbol} : ∀ (n : Node) {r : Renaming},
    a ∈ n.freeSymbols → r.apply a = a → a ∈ (n.rename r).freeSymbols := by
  refine Node.induct fun t ih r ha hr => ?_
  cases ht : t.referent? with
  | some s =>
    rw [freeSymbols_of_referent ht, List.mem_singleton] at ha
    subst ha
    obtain ⟨t', hrename, ht'⟩ := rename_of_referent ht r
    rw [hrename, freeSymbols_of_referent ht', hr]
    exact List.mem_cons_self
  | none =>
    obtain ⟨seen, n, hmem, hn, hseen⟩ := (mem_freeSymbols_iff_sights ht).mp ha
    have hinside : (r.without t.bound).apply a = a := by
      rw [Renaming.apply_without]
      split
      · rfl
      · exact hr
    exact (mem_freeSymbols_rename_iff ht).mpr
      ⟨seen, n, hmem, ih n (Shape.mem_children_of_sights hmem) hn hinside, hseen⟩

/-- **A symbol that a renaming misses is left over.** -/
theorem mem_freeSymbols_of_hidden {a : Symbol} : ∀ (n : Node) {r : Renaming},
    a ∈ n.hidden → a ∈ (n.rename r).freeSymbols := by
  refine Node.induct fun t ih r ha => ?_
  obtain ⟨seen, n, hmem, hseen, h⟩ := mem_hidden_iff.mp ha
  have ht := Shape.referent?_of_sights hmem
  have hn : a ∈ (n.rename (r.without t.bound)).freeSymbols := by
    rcases h with h | ⟨hfree, hbound⟩
    · exact ih n (Shape.mem_children_of_sights hmem) h
    · refine n.mem_freeSymbols_of_unrenamed hfree ?_
      rw [Renaming.apply_without, if_pos hbound]
  exact (mem_freeSymbols_rename_iff ht).mpr ⟨seen, n, hmem, hn, hseen⟩

/-- A renaming that leaves the hidden symbols of a node alone does so inside its children. -/
theorem unrenamed_of_sights {t : Shape Node} {r : Renaming}
    (hr : ∀ s ∈ (mk t).hidden, r.apply s = s) {seen : List Symbol} {n : Node}
    (hmem : (seen, n) ∈ t.sights) : ∀ s ∈ n.hidden, (r.without t.bound).apply s = s := by
  intro s hs
  rw [Renaming.apply_without]
  split
  · rfl
  · next hbound =>
    have hseen : s ∉ seen := fun h => hbound (Shape.subset_bound_of_sights hmem h)
    exact hr s (mem_hidden_iff.mpr ⟨seen, n, hmem, hseen, .inl hs⟩)

/-- Inside a child, such a renaming is the same for the symbols that the child does not see
bound. -/
theorem apply_without_of_sights {t : Shape Node} {r : Renaming}
    (hr : ∀ s ∈ (mk t).hidden, r.apply s = s) {seen : List Symbol} {n : Node}
    (hmem : (seen, n) ∈ t.sights) {s : Symbol} (hs : s ∈ n.freeSymbols) (hseen : s ∉ seen) :
    (r.without t.bound).apply s = r.apply s := by
  rw [Renaming.apply_without]
  split
  · next hbound => exact (hr s (mem_hidden_iff.mpr ⟨seen, n, hmem, hseen, .inr ⟨hs, hbound⟩⟩)).symm
  · rfl

/-- If a renaming misses nothing, what is free after it was renamed from something free. -/
theorem exists_of_mem_freeSymbols_rename {a : Symbol} : ∀ (n : Node) {r : Renaming},
    (∀ s ∈ n.hidden, r.apply s = s) → a ∈ (n.rename r).freeSymbols →
      ∃ s ∈ n.freeSymbols, r.apply s = a := by
  refine Node.induct fun t ih r hr ha => ?_
  cases ht : t.referent? with
  | some s =>
    obtain ⟨t', hrename, ht'⟩ := rename_of_referent ht r
    rw [hrename, freeSymbols_of_referent ht', List.mem_singleton] at ha
    exact ⟨s, by rw [freeSymbols_of_referent ht]; exact List.mem_cons_self, ha.symm⟩
  | none =>
    obtain ⟨seen, n, hmem, ha, hseen⟩ := (mem_freeSymbols_rename_iff ht).mp ha
    obtain ⟨s, hs, hsa⟩ :=
      ih n (Shape.mem_children_of_sights hmem) (unrenamed_of_sights hr hmem) ha
    have hunseen : s ∉ seen := by
      intro h
      rw [Renaming.apply_without, if_pos (Shape.subset_bound_of_sights hmem h)] at hsa
      exact hseen (hsa ▸ h)
    rw [apply_without_of_sights hr hmem hs hunseen] at hsa
    exact ⟨s, (mem_freeSymbols_iff_sights ht).mpr ⟨seen, n, hmem, hs, hunseen⟩, hsa⟩

theorem mem_symbols_of_bound {t : Shape Node} {a : Symbol} (h : a ∈ t.bound) :
    a ∈ (mk t).symbols := by
  cases t with
  | query q => exact mem_symbols_query.mpr (Query.mem_symbols_iff.mpr (.inl h))
  | _ => exact absurd h List.not_mem_nil

/-- **A renaming to new symbols that misses none keeps every meaning.** -/
theorem resolutions_rename : ∀ (n : Node) {r : Renaming} {path : Path} {meaning meaning' : Meaning},
    (∀ s ∈ n.hidden, r.apply s = s) →
    (∀ s ∈ n.freeSymbols, r.apply s = s ∨ r.apply s ∉ n.symbols) →
    (∀ s ∈ n.freeSymbols, meaning' (r.apply s) = meaning s) →
      (n.rename r).resolutions path meaning' = n.resolutions path meaning := by
  refine Node.induct fun t ih r path meaning meaning' hr hnew hmeaning => ?_
  cases ht : t.referent? with
  | some s =>
    obtain ⟨t', hrename, ht'⟩ := rename_of_referent ht r
    rw [hrename, resolutions_of_referent ht', resolutions_of_referent ht,
      hmeaning s (by rw [freeSymbols_of_referent ht]; exact List.mem_cons_self)]
  | none =>
    rw [rename_of_sights ht, resolutions_of_sights (by rwa [Shape.referent?_map]),
      resolutions_of_sights ht, Shape.sights_map, List.zipIdx_map, List.flatMap_map]
    refine List.flatMap_congr ?_
    rintro ⟨⟨seen, n⟩, i⟩ hchild
    have hmem : (seen, n) ∈ t.sights := List.fst_mem_of_mem_zipIdx hchild
    have hn := Shape.mem_children_of_sights hmem
    have hseenBound := Shape.subset_bound_of_sights hmem
    have hfree : ∀ s ∈ n.freeSymbols, s ∉ seen → s ∈ (mk t).freeSymbols := fun s hs hseen =>
      (mem_freeSymbols_iff_sights ht).mpr ⟨seen, n, hmem, hs, hseen⟩
    -- A symbol bound in sight stays as it is; any other one is renamed as outside, and its new name
    -- is not bound in sight.
    have hcases : ∀ s ∈ n.freeSymbols, s ∈ seen ∧ (r.without t.bound).apply s = s
        ∨ s ∉ seen ∧ r.apply s ∉ seen ∧ s ∈ (mk t).freeSymbols
          ∧ (r.without t.bound).apply s = r.apply s := by
      intro s hs
      by_cases hseen : s ∈ seen
      · refine .inl ⟨hseen, ?_⟩
        rw [Renaming.apply_without, if_pos (hseenBound hseen)]
      · refine .inr ⟨hseen, fun h => ?_, hfree s hs hseen, apply_without_of_sights hr hmem hs hseen⟩
        rcases hnew s (hfree s hs hseen) with heq | hfresh
        · exact hseen (heq ▸ h)
        · exact hfresh (mem_symbols_of_bound (hseenBound h))
    refine ih n hn (unrenamed_of_sights hr hmem) (fun s hs => ?_) fun s hs => ?_
    · rcases hcases s hs with ⟨-, heq⟩ | ⟨-, -, hs, heq⟩
      · exact .inl heq
      · rw [heq]
        exact (hnew s hs).imp_right fun h hin => h (mem_symbols_iff.mpr (.inr ⟨n, hn, hin⟩))
    · change meaning'.bind path seen _ = meaning.bind path seen s
      rcases hcases s hs with ⟨hseen, heq⟩ | ⟨hseen, hseen', hs, heq⟩
      · rw [heq, Meaning.bind_of_mem hseen, Meaning.bind_of_mem hseen]
      · rw [heq, Meaning.bind_of_not_mem hseen, Meaning.bind_of_not_mem hseen', hmeaning s hs]

/-- The symbols that each node of a tree binds. -/
def binderLists : Node → List (List Symbol) :=
  fold fun s => s.bound :: s.children.flatMap Prod.snd

theorem binderLists_mk (t : Shape Node) :
    (mk t).binderLists = t.bound :: t.children.flatMap binderLists := by
  rw [binderLists, fold_mk, Shape.bound_map, Shape.children_map, List.flatMap_map]
  rfl

theorem binderLists_of_referent {t : Shape Node} {s : Symbol} (ht : t.referent? = some s) :
    (mk t).binderLists = [[]] := by
  cases t with
  | row _ | column _ _ => exact binderLists_mk _
  | _ => cases ht

/-- A renaming changes no binders. -/
theorem binderLists_rename : ∀ (n : Node) (r : Renaming),
    (n.rename r).binderLists = n.binderLists := by
  refine Node.induct fun t ih r => ?_
  cases ht : t.referent? with
  | some s =>
    obtain ⟨t', hrename, ht'⟩ := rename_of_referent ht r
    rw [hrename, binderLists_of_referent ht', binderLists_of_referent ht]
  | none =>
    rw [rename_of_sights ht, binderLists_mk, binderLists_mk, Shape.bound_map, Shape.children_map,
      List.flatMap_map]
    exact congrArg _ (List.flatMap_congr fun n hn => ih n hn _)

/-- **The check accepts a tree if what it does not bind is in scope, and nothing is bound
twice.** -/
theorem checkScope_eq_ok_iff_free : ∀ (n : Node) {scope : List Symbol},
    n.checkScope scope = .ok ()
      ↔ (∀ s ∈ n.freeSymbols, s ∈ scope) ∧ ∀ binders ∈ n.binderLists, binders.Nodup := by
  refine Node.induct fun t ih scope => ?_
  cases ht : t.referent? with
  | some s =>
    rw [checkScope_of_referent ht, freeSymbols_of_referent ht, binderLists_of_referent ht]
    by_cases hs : s ∈ scope <;> simp [hs]
  | none =>
    rw [checkScope_eq_ok_iff ht, binderLists_mk]
    have hchildren : (∀ seen n, (seen, n) ∈ t.sights →
          n.checkScope (seen.reverse ++ scope) = .ok ())
        ↔ ∀ seen n, (seen, n) ∈ t.sights → (∀ s ∈ n.freeSymbols, s ∉ seen → s ∈ scope)
          ∧ ∀ binders ∈ n.binderLists, binders.Nodup := by
      refine forall_congr' fun seen => forall_congr' fun n => imp_congr_right fun hmem => ?_
      rw [ih n (Shape.mem_children_of_sights hmem)]
      simp [or_iff_not_imp_left]
    rw [hchildren, List.forall_mem_cons, ← Shape.map_snd_sights]
    simp only [mem_freeSymbols_iff_sights ht, List.mem_flatMap, List.mem_map]
    constructor
    · rintro ⟨hnodup, h⟩
      refine ⟨?_, hnodup, ?_⟩
      · rintro s ⟨seen, n, hmem, hs, hseen⟩
        exact (h seen n hmem).1 s hs hseen
      · rintro binders ⟨n, ⟨⟨seen, n⟩, hmem, rfl⟩, hbinders⟩
        exact (h seen n hmem).2 binders hbinders
    · rintro ⟨hfree, hnodup, hlists⟩
      exact ⟨hnodup, fun seen n hmem => ⟨fun s hs hseen => hfree s ⟨seen, n, hmem, hs, hseen⟩,
        fun binders hbinders => hlists binders ⟨n, ⟨(seen, n), hmem, rfl⟩, hbinders⟩⟩⟩

/-- A renaming changes nothing but symbols. -/
theorem relabel_rename (c : Symbol) : ∀ (n : Node) (r : Renaming),
    (n.rename r).relabel (fun _ => c) = n.relabel fun _ => c := by
  refine Node.induct fun t ih r => ?_
  have composed : t.referent? = none →
      ((mk t).rename r).relabel (fun _ => c) = (mk t).relabel fun _ => c := by
    intro ht
    rw [rename_of_sights ht, relabel_mk, relabel_mk, Shape.map_map]
    exact congrArg (fun t => mk (Shape.relabelLayer _ t)) (Shape.map_congr fun n hn => ih n hn _)
  cases t with
  | row source => rw [rename_row, relabel_mk, relabel_mk]; rfl
  | column source name => rw [rename_column, relabel_mk, relabel_mk]; rfl
  | _ => exact composed rfl

end Node

/-! ## Fresh symbols -/

/-- The symbols that a table hands out next if it has no slot to use again. -/
def SymbolTable.upcoming (t : SymbolTable) (count : Nat) : List Symbol :=
  (List.range' (t.reserved + t.slots.size) count).map fun i => ⟨UInt32.ofNat i, 0⟩

theorem SymbolTable.length_upcoming (t : SymbolTable) (count : Nat) :
    (t.upcoming count).length = count := by
  rw [upcoming, List.length_map, List.length_range']

theorem idxOf_map {f : Symbol → Symbol} {s : Symbol} {l : List Symbol}
    (h : ∀ a ∈ l, f a = f s → a = s) : (l.map f).idxOf (f s) = l.idxOf s := by
  induction l with
  | nil => rfl
  | cons a l ih =>
    have hl := ih fun b hb => h b (List.mem_cons_of_mem _ hb)
    have ha : f a = f s ↔ a = s := ⟨h a List.mem_cons_self, fun heq => heq ▸ rfl⟩
    simp only [List.map_cons, List.idxOf_cons, beq_eq_decide, ha, hl]

namespace Query

/-- Fresh symbols are taken one after the other. -/
theorem freshen_eq_zip {t : SymbolTable} (h : t.free = []) (l : List Symbol) :
    (freshen t l).1 = l.zip (t.upcoming l.length) := by
  induction l generalizing t with
  | nil => rfl
  | cons s l ih =>
    have hnext : ∀ slot, SymbolTable.upcoming { t with slots := t.slots.push slot } l.length
        = (List.range' (t.reserved + t.slots.size + 1) l.length).map
          fun i => ⟨UInt32.ofNat i, 0⟩ := by
      intro slot
      rw [SymbolTable.upcoming, Array.size_push, Nat.add_assoc]
    rw [freshen, SymbolTable.fresh_of_nil h]
    change (s, _) :: (freshen { t with slots := t.slots.push _ } l).1 = _
    rw [ih (t := { t with slots := t.slots.push _ }) h, hnext]
    rfl

/-- The symbols that a renaming of the generators misses. -/
def hidden (q : Query) : List Symbol :=
  q.children.flatMap Node.hidden

/-- There are new symbols for the generators of a query: the slots after those of the query, as far
as slots can be numbered, are different ones and stand for no symbol of the query. -/
def HasSlots (q : Query) : Prop :=
  let new := (SymbolTable.aboveQuery q).upcoming q.binders.length
  new.Nodup ∧ ∀ s ∈ new, s ∉ symbols q

/-- There are new symbols as long as the slots of the query leave room for its generators. -/
theorem hasSlots_of_room {q : Query}
    (hroom : (SymbolTable.aboveQuery q).reserved + q.binders.length ≤ UInt32.size) :
    HasSlots q := by
  have hslot : ∀ i ∈ List.range' (SymbolTable.aboveQuery q).reserved q.binders.length,
      (UInt32.ofNat i).toNat = i := by
    intro i hi
    have := List.mem_range'_1.mp hi
    exact UInt32.toNat_ofNat_of_lt' (by omega)
  refine ⟨List.Nodup.map_on (fun i hi j hj h => ?_) List.nodup_range', fun s hs hmem => ?_⟩
  · rw [← hslot i hi, ← hslot j hj, (Symbol.mk.inj h).1]
  · obtain ⟨i, hi, rfl⟩ := List.mem_map.mp hs
    have hlow := (SymbolTable.lt_reserved_above fun s _ => s.slot.toNat_lt).1 _ hmem
    rw [hslot i hi] at hlow
    have hhigh := (List.mem_range'_1.mp hi).1
    exact absurd hlow (Nat.not_lt.mpr hhigh)

/-- A query with other symbols for its generators, and the same in every other respect: it is well
scoped, its own symbols are different ones and new, every reference means the same generator as
before, and there are no differences but in the symbols. -/
structure Converts (q q' : Query) : Prop where
  checked : checkScope q' = .ok ()
  distinct : q'.binders.Nodup
  new : ∀ s ∈ q'.binders, ¬ (Node.query q).Mentions s
  meaning : resolutions q' = resolutions q
  same : relabel (fun _ => ⟨0, 0⟩) q' = relabel (fun _ => ⟨0, 0⟩) q

section
variable {q : Query} {r : Renaming}

theorem binders_renameBinders (r : Renaming) (q : Query) :
    (renameBinders r q).binders = q.binders.map r.apply := by
  simp [renameBinders, Clauses.binders, Clauses.map]

theorem sights_renameBinders (r : Renaming) (q : Query) :
    (renameBinders r q).sights
      = q.sights.map (Prod.map (List.map r.apply) fun n => n.rename r) := by
  have hgenerators : (renameBinders r q).generators
      = q.generators.map fun g => ⟨r.apply g.binder, g.source.rename r⟩ := by
    simp [renameBinders, Clauses.map]
  have hexpressions : (renameBinders r q).expressions = q.expressions.map fun n => n.rename r :=
    Clauses.expressions_map _ q
  have hsources := Clauses.sightsFrom_map r.apply (fun n => n.rename r) q.generators []
  rw [Clauses.sights, Clauses.sights, hgenerators, hexpressions, binders_renameBinders,
    List.map_append, List.map_map, List.map_map, ← hsources]
  rfl

/-- In a well-scoped query nothing is free in a child but what the query brings into its sight. -/
theorem freeSymbols_subset_seen (hq : checkScope q = .ok ()) {seen : List Symbol} {n : Node}
    (hmem : (seen, n) ∈ q.sights) : n.freeSymbols ⊆ seen := by
  intro s hs
  have hcheck := (Clauses.checkScopeLayer_eq_ok_iff.mp hq).2 seen n hmem
  simpa using (n.checkScope_eq_ok_iff_free.mp hcheck).1 s hs

theorem hidden_eq_nil_of_sights (hhidden : hidden q = []) {seen : List Symbol} {n : Node}
    (hmem : (seen, n) ∈ q.sights) : n.hidden = [] :=
  List.flatMap_eq_nil_iff.mp hhidden _ (Shape.mem_children_of_sights (s := .query q) hmem)

/-- A well-scoped query stays so if its generators get different symbols and none is missed. -/
theorem checkScope_renameBinders (hq : checkScope q = .ok ()) (hhidden : hidden q = [])
    (hdistinct : (q.binders.map r.apply).Nodup) : checkScope (renameBinders r q) = .ok () := by
  obtain ⟨-, hsights⟩ := Clauses.checkScopeLayer_eq_ok_iff.mp hq
  refine Clauses.checkScopeLayer_eq_ok_iff.mpr ⟨by rwa [binders_renameBinders], fun _ _ h => ?_⟩
  rw [sights_renameBinders] at h
  obtain ⟨⟨seen, n⟩, hmem, heq⟩ := List.mem_map.mp h
  cases heq
  rw [Node.checkScope_eq_ok_iff_free, Node.binderLists_rename]
  refine ⟨fun a ha => ?_, (n.checkScope_eq_ok_iff_free.mp (hsights seen n hmem)).2⟩
  obtain ⟨s, hs, rfl⟩ :=
    n.exists_of_mem_freeSymbols_rename (by simp [hidden_eq_nil_of_sights hhidden hmem]) ha
  simpa using ⟨s, freeSymbols_subset_seen hq hmem hs, rfl⟩

/-- Every reference keeps its meaning if the generators get different symbols that are new. -/
theorem resolutions_renameBinders (hq : checkScope q = .ok ()) (hhidden : hidden q = [])
    (hdistinct : (q.binders.map r.apply).Nodup)
    (hnew : ∀ s ∈ q.binders.map r.apply, s ∉ symbols q) :
    resolutions (renameBinders r q) = resolutions q := by
  rw [resolutions, resolutions, Node.resolutions_of_sights rfl, Node.resolutions_of_sights rfl,
    Shape.sights, Shape.sights, sights_renameBinders, List.zipIdx_map, List.flatMap_map]
  refine List.flatMap_congr ?_
  rintro ⟨⟨seen, n⟩, i⟩ hchild
  have hmem : (seen, n) ∈ q.sights := List.fst_mem_of_mem_zipIdx hchild
  have hfree := freeSymbols_subset_seen hq hmem
  have hseen : seen ⊆ q.binders := Shape.subset_bound_of_sights (s := .query q) hmem
  have hn : n ∈ q.children := Shape.mem_children_of_sights (s := .query q) hmem
  refine n.resolutions_rename (by simp [hidden_eq_nil_of_sights hhidden hmem]) (fun s hs => ?_)
    fun s hs => ?_
  · have hfresh := hnew _ (List.mem_map_of_mem (hseen (hfree hs)))
    exact .inr fun h => hfresh (symbols_subset hn h)
  · change Meaning.bind _ [] (seen.map r.apply) (r.apply s) = Meaning.bind _ [] seen s
    rw [Meaning.bind_of_mem (List.mem_map_of_mem (hfree hs)), Meaning.bind_of_mem (hfree hs),
      idxOf_map fun a ha => List.inj_on_of_nodup_map hdistinct (hseen ha) (hseen (hfree hs))]

theorem relabel_renameBinders (c : Symbol) :
    relabel (fun _ => c) (renameBinders r q) = relabel (fun _ => c) q := by
  simp [relabel, twin, Clauses.relabelLayer, renameBinders, Clauses.map, Function.comp_def,
    Node.relabel_rename]

/-- A symbol that is missed makes the query ill scoped, if the generators get new symbols. -/
theorem hidden_eq_nil_of_checkScope (hnew : ∀ s ∈ q.binders.map r.apply, s ∉ symbols q)
    (hcheck : checkScope (renameBinders r q) = .ok ()) : hidden q = [] := by
  refine List.flatMap_eq_nil_iff.mpr fun n hn => List.eq_nil_iff_forall_not_mem.mpr fun a ha => ?_
  rw [show q.children = (Shape.query q).children from rfl, ← Shape.map_snd_sights] at hn
  obtain ⟨⟨seen, n⟩, hmem, rfl⟩ := List.mem_map.mp hn
  have hmem' : (seen.map r.apply, n.rename r) ∈ (renameBinders r q).sights := by
    rw [sights_renameBinders]
    exact List.mem_map_of_mem hmem
  have hleft := freeSymbols_subset_seen hcheck hmem' (n.mem_freeSymbols_of_hidden ha)
  obtain ⟨s, hs, hsa⟩ := List.mem_map.mp hleft
  have hbinder : s ∈ q.binders := Shape.subset_bound_of_sights (s := .query q) hmem hs
  have hchild : n ∈ q.children := Shape.mem_children_of_sights (s := .query q) hmem
  refine hnew a (List.mem_map.mpr ⟨s, hbinder, hsa⟩) (symbols_subset hchild ?_)
  exact n.freeSymbols_subset_symbols (n.hidden_subset_freeSymbols ha)

end

/-- The generators of a refreshed query have the next symbols of the table. -/
theorem refresh_eq_renameBinders {q : Query} {t : SymbolTable} (hq : q.binders.Nodup)
    (ht : t.free = []) : ∃ r : Renaming, (refresh t q).1 = renameBinders r q
      ∧ q.binders.map r.apply = t.upcoming q.binders.length := by
  refine ⟨(freshen t q.binders).1, rfl, ?_⟩
  rw [freshen_eq_zip ht]
  exact Renaming.map_apply_zip hq (SymbolTable.length_upcoming ..).symm

/-- **Fresh symbols convert a well-scoped query exactly if there are new slots for them and the
renaming misses no symbol.** -/
theorem refresh_converts_iff (q : Query) (hq : checkScope q = .ok ()) :
    Converts q (refresh (SymbolTable.aboveQuery q) q).1 ↔ HasSlots q ∧ hidden q = [] := by
  have hnodup := (Clauses.checkScopeLayer_eq_ok_iff.mp hq).1
  obtain ⟨r, hrefresh, hupcoming⟩ := refresh_eq_renameBinders (t := .aboveQuery q) hnodup rfl
  rw [hrefresh, HasSlots, ← hupcoming]
  constructor
  · rintro ⟨hcheck, hdistinct, hnew, -, -⟩
    rw [binders_renameBinders] at hdistinct hnew
    simp only [Node.mentions_iff, Node.mem_symbols_query] at hnew
    exact ⟨⟨hdistinct, hnew⟩, hidden_eq_nil_of_checkScope hnew hcheck⟩
  · rintro ⟨⟨hdistinct, hnew⟩, hhidden⟩
    refine ⟨checkScope_renameBinders hq hhidden hdistinct, ?_, ?_,
      resolutions_renameBinders hq hhidden hdistinct hnew, relabel_renameBinders _⟩
    · rwa [binders_renameBinders]
    · simpa only [binders_renameBinders, Node.mentions_iff, Node.mem_symbols_query] using hnew

/-- A nested query binds a symbol of the outer one again, after a source that refers to the other
one. -/
theorem refresh_converts_iff_shadowed :
    let q : Query := {
      generators := [⟨⟨0, 0⟩, .table "users"⟩, ⟨⟨1, 0⟩, .table "groups"⟩]
      filters := [.apply .hasRows [.query {
        generators := [⟨⟨2, 0⟩, .query {
            generators := [⟨⟨3, 0⟩, .table "orders"⟩]
            filters := [.binary .eq (.column ⟨3, 0⟩ "user_id") (.column ⟨0, 0⟩ "id")] }⟩,
          ⟨⟨1, 0⟩, .table "items"⟩]
        filters := [.binary .eq (.column ⟨1, 0⟩ "order_id") (.column ⟨2, 0⟩ "id")]
        projection := some (.column ⟨1, 0⟩ "id") }]]
      projection := some (.column ⟨1, 0⟩ "name") }
    checkScope q = .ok () ∧ hidden q = []
      ∧ (refresh (SymbolTable.aboveQuery q) q).1.binders = [⟨4, 0⟩, ⟨5, 0⟩]
      ∧ Converts q (refresh (SymbolTable.aboveQuery q) q).1 := by
  intro q
  have hslots : HasSlots q := hasSlots_of_room (by decide)
  exact ⟨rfl, rfl, rfl, (refresh_converts_iff q rfl).mpr ⟨hslots, rfl⟩⟩

/-- The orders of a user as a source, whose generator binds the symbol of the user again.  Their
filter refers to the user and keeps the old symbol, which nothing binds any longer. -/
theorem refresh_leaves_hidden :
    let q : Query := {
      generators := [⟨⟨0, 0⟩, .table "users"⟩]
      filters := [.apply .hasRows [.query {
        generators := [⟨⟨0, 0⟩, .query {
          generators := [⟨⟨1, 0⟩, .table "orders"⟩]
          filters := [.binary .eq (.column ⟨1, 0⟩ "user_id") (.column ⟨0, 0⟩ "id")]
          projection := some (.mk (.record [⟨"total", .column ⟨1, 0⟩ "total"⟩])) }⟩]
        projection := some (.column ⟨0, 0⟩ "total") }]]
      projection := some (.column ⟨0, 0⟩ "id") }
    let q' := (refresh (SymbolTable.aboveQuery q) q).1
    checkScope q = .ok () ∧ q'.binders = [⟨2, 0⟩] ∧ hidden q = [⟨0, 0⟩]
      ∧ checkScope q' = .error (.malformed (.outOfScope ⟨0, 0⟩)) ∧ ¬ Converts q q' := by
  intro q q'
  have hcheck : checkScope q' = .error (.malformed (.outOfScope ⟨0, 0⟩)) := rfl
  refine ⟨rfl, rfl, rfl, hcheck, fun h => ?_⟩
  have hok := h.checked
  rw [hcheck] at hok
  cases hok

end Query
end SqlCompiler
