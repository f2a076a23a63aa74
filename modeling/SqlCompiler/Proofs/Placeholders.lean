import SqlCompiler.Proofs.Writing

/-!
# Placeholders

The placeholders in the text of a statement are those of its setters, in the same order.  What was
shown of scripts is put together here with what every statement begins with.

* `Piece.Aligned` — placeholders and setters of a statement agree.
* `Piece.aligned_append` — they do if no quoted regions touch.
* `Query.placeholders_aligned` — so they do in every statement of a built-in dialect.
-/

set_option autoImplicit false
namespace SqlCompiler

open Text

namespace Piece

/-- The placeholders in the text of a statement, from left to right, are `inputs` for the columns of
a row, and then one for each setter; the setters bind `bs`. -/
structure Aligned (names : Quote) (inputs : Nat) (ps : List Piece) (bs : List Binding) : Prop where
  count : placeholderCount names (joined names ps) = inputs + (setters ps).length
  /-- Up to any piece, as many placeholders were written as there are setters so far. -/
  order : ∃ front back, ps = front ++ back ∧ setters front = []
    ∧ placeholderCount names (joined names front) = inputs
    ∧ ∀ xs ys, back = xs ++ ys →
        placeholderCount names (joined names (front ++ xs)) = inputs + (setters xs).length
  bound : (setters ps).map Setter.binding = bs

/-- Without inputs there is a setter for every placeholder. -/
theorem countP_isPlaceholder {ps : List Piece} (h : input ∉ ps) :
    ps.countP isPlaceholder = (setters ps).length := by
  induction ps with
  | nil => rfl
  | cons p ps ih =>
    rw [List.mem_cons, not_or] at h
    have hrest := ih h.2
    cases p with
    | input => exact absurd rfl h.1
    | placeholder setter =>
      rw [List.countP_cons_of_pos rfl, hrest]
      rfl
    | _ => exact hrest

theorem setters_filter (ps : List Piece) : setters (ps.filter isPlaceholder) = setters ps := by
  induction ps with
  | nil => rfl
  | cons p ps ih =>
    cases p with
    | placeholder setter => exact congrArg (setter :: ·) ih
    | _ => exact ih

/-- The placeholders for what is bound have setters that bind it. -/
theorem binding_setters {d : Dialect} {ps : List Piece} {bs : List Binding}
    (h : ps.filter isPlaceholder = bs.map (Binding.piece d)) :
    (setters ps).map Setter.binding = bs := by
  have hpieces : setters (bs.map (Binding.piece d))
      = bs.map fun b => ⟨d.types.column b.kind, b.source⟩ := by
    rw [setters, List.filterMap_map]
    exact congrFun List.filterMap_eq_map bs
  rw [← setters_filter, h, hpieces, List.map_map]
  refine (List.map_congr_left fun b _ => ?_).trans (List.map_id bs)
  simp only [Function.comp_apply, Setter.binding, Setter.kind, d.types.kind_column, id_eq]

/-- Pieces whose quoted regions do not touch, with the inputs in front. -/
theorem aligned_append {d : Dialect} (hd : d.quote.Known) {front back : List Piece}
    {bs : List Binding} (hspaced : Spaced d.quote true (front ++ back))
    (hfront : setters front = []) (hback : back.filter isPlaceholder = bs.map (Binding.piece d)) :
    Aligned d.quote (front.countP isPlaceholder) (front ++ back) bs := by
  have hnumber : ∀ n : Nat, Plain d.quote ("x" ++ toString n).toList :=
    fun n => (neutral_append (by decide) (solid_toString n).bare.neutral).plain hd
  have hinput : input ∉ back := by
    intro hmem
    have hfilter : input ∈ back.filter isPlaceholder := List.mem_filter.mpr ⟨hmem, rfl⟩
    rw [hback] at hfilter
    obtain ⟨b, -, hb⟩ := List.mem_map.mp hfilter
    cases hb
  have hprefix : ∀ xs ys, back = xs ++ ys →
      placeholderCount d.quote (joined d.quote (front ++ xs))
        = front.countP isPlaceholder + (setters xs).length := by
    intro xs ys hxs
    rw [hxs, ← List.append_assoc] at hspaced
    have hinput' : input ∉ xs := fun hmem => hinput (hxs ▸ List.mem_append_left _ hmem)
    rw [placeholderCount, (count_outside_joined hd.proper hnumber hspaced.front).2,
      List.countP_append, countP_isPlaceholder hinput']
  have hsetters : setters (front ++ back) = setters back := by
    rw [setters, List.filterMap_append]
    change setters front ++ setters back = _
    rw [hfront, List.nil_append]
  refine ⟨?_, ⟨front, back, rfl, hfront, ?_, hprefix⟩, ?_⟩
  · rw [hsetters]
    exact hprefix back [] (List.append_nil back).symm
  · have hnone := hprefix [] back rfl
    rwa [List.append_nil] at hnone
  · rw [hsetters]
    exact binding_setters hback

/-- What an update writes before its filters. -/
theorem spaced_assignments {names : Quote} (hn : names.Known) (columns : List String)
    {ps : List Piece} (h : Spaced names false ps) :
    Spaced names true
      (separated (.words ", ") (columns.map fun c => [.name c, .words " = ", .input]) ++ ps) := by
  have hequals : (Piece.words " = ").Fine names :=
    IsWord.fine hn (by decide)
  have hcomma : (Piece.words ", ").Fine names :=
    IsWord.fine hn (by decide)
  induction columns with
  | nil => exact h.weaken
  | cons c columns ih =>
    cases columns with
    | nil => exact ⟨fun _ => rfl, trivial, nofun, hequals, nofun, trivial, h.weaken⟩
    | cons c' columns =>
      exact ⟨fun _ => rfl, trivial, nofun, hequals, nofun, trivial, nofun, hcomma, ih⟩

theorem placeholders_assignments (columns : List String) :
    setters (separated (.words ", ") (columns.map fun c => [.name c, .words " = ", .input])) = []
      ∧ (separated (.words ", ") (columns.map fun c => [.name c, .words " = ", .input])).countP
          isPlaceholder = columns.length := by
  induction columns with
  | nil => exact ⟨rfl, rfl⟩
  | cons c columns ih =>
    cases columns with
    | nil => exact ⟨rfl, rfl⟩
    | cons c' columns =>
      obtain ⟨hsetters, hcount⟩ := ih
      refine ⟨hsetters, ?_⟩
      change (Piece.name c :: .words " = " :: .input :: .words ", "
        :: separated (.words ", ")
          ((c' :: columns).map fun c => [.name c, .words " = ", .input])).countP isPlaceholder = _
      simp only [List.countP_cons, isPlaceholder, hcount, List.length_cons]
      rfl

end Piece

namespace Query

/-- The filters of a query after some pieces that bind nothing. -/
theorem aligned_filters {d : Dialect} (hd : d.Legible) {q : Query} {t : Target}
    (hcalls : ∀ name ∈ calls q, Plain d.quote name.toList) {front : List Piece} {o : Output}
    (hspaced : ∀ ps, Piece.Spaced d.quote false ps → Piece.Spaced d.quote true (front ++ ps))
    (hfront : Piece.setters front = [])
    (ho : (Script.filters (rendering d q)).output t.aliases false 0 = .ok o) :
    Piece.Aligned d.quote (front.countP Piece.isPlaceholder) (front ++ o.pieces)
      (q.filters.flatMap (Node.bindings d)) := by
  have hwrites := Script.writes_filters hd.quote fun n hn =>
    (Script.writes_tree hd).1 n fun name hname =>
      hcalls name (List.mem_flatMap.mpr ⟨n, Clauses.filter_mem_children hn, hname⟩)
  have haliases : t.aliases.Fine d.quote := by
    intro s a ha
    rw [Target.aliases] at ha
    split at ha
    · cases ha; trivial
    · cases ha
  obtain ⟨hpieces, hfilter⟩ := hwrites haliases ho
  have hback : Piece.Spaced d.quote false o.pieces := by
    have := hpieces [] trivial
    rwa [List.append_nil] at this
  exact Piece.aligned_append hd.quote (hspaced _ hback) hfront hfilter

/-- **Placeholders and setters agree.**  If the user's functions have names without question marks
and quotation marks, a scanner that skips quoted regions finds in every statement of a built-in
dialect one placeholder for each setter, in the same order, and in an update one for each column
to set before them; and the setters bind what the tree binds, in the order of its text. -/
theorem placeholders_aligned (b : Database) (q : Query)
    (hcalls : ∀ name ∈ calls q, Plain b.dialect.quote name.toList) :
    (∀ s, q.compile b.dialect = .ok s →
      s.quote = b.dialect.quote ∧ Piece.Aligned s.quote 0 s.pieces (bindings b.dialect q))
    ∧ (∀ s, q.compileDelete b.dialect = .ok s →
      s.quote = b.dialect.quote
        ∧ Piece.Aligned s.quote 0 s.pieces (q.filters.flatMap (Node.bindings b.dialect)))
    ∧ ∀ u, q.compileUpdate b.dialect = .ok u →
      u.quote = b.dialect.quote
        ∧ Piece.Aligned u.quote u.columns.length u.pieces
            (q.filters.flatMap (Node.bindings b.dialect)) := by
  have hd := b.legible
  refine ⟨fun s hs => ?_, fun s hs => ?_, fun u hu => ?_⟩
  · rw [compile_eq] at hs
    obtain ⟨_, -, hs⟩ := bind_eq_ok_iff.mp hs
    obtain ⟨o, ho, hs⟩ := bind_eq_ok_iff.mp hs
    cases hs
    have hnone : Aliases.Fine b.dialect.quote fun _ => none := by
      intro t a ha
      cases ha
    obtain ⟨hpieces, hfilter⟩ := (Script.writes_tree hd).2 q hcalls hnone ho
    have hspaced : Piece.Spaced b.dialect.quote true ([] ++ o.pieces) := by
      rw [List.nil_append, ← List.append_nil o.pieces]
      exact hpieces [] trivial
    have haligned : Piece.Aligned b.dialect.quote 0 ([] ++ o.pieces) (bindings b.dialect q) :=
      Piece.aligned_append hd.quote hspaced rfl hfilter
    exact ⟨rfl, haligned⟩
  · rw [compileDelete_eq] at hs
    obtain ⟨_, -, hs⟩ := bind_eq_ok_iff.mp hs
    obtain ⟨t, -, hs⟩ := bind_eq_ok_iff.mp hs
    obtain ⟨o, ho, hs⟩ := bind_eq_ok_iff.mp hs
    cases hs
    have hdelete : (Piece.words "delete from ").Fine b.dialect.quote :=
      IsWord.fine hd.quote (by decide)
    have hspaced : ∀ ps, Piece.Spaced b.dialect.quote false ps →
        Piece.Spaced b.dialect.quote true ([.words "delete from ", .name t.table] ++ ps) :=
      fun ps hps => ⟨nofun, hdelete, fun _ => rfl, trivial, hps⟩
    exact ⟨rfl, aligned_filters hd hcalls hspaced rfl ho⟩
  · rw [compileUpdate_eq] at hu
    obtain ⟨_, -, hu⟩ := bind_eq_ok_iff.mp hu
    obtain ⟨t, -, hu⟩ := bind_eq_ok_iff.mp hu
    obtain ⟨nodes, -, hu⟩ := bind_eq_ok_iff.mp hu
    obtain ⟨columns, -, hu⟩ := bind_eq_ok_iff.mp hu
    obtain ⟨o, ho, hu⟩ := bind_eq_ok_iff.mp hu
    cases hu
    have hupdate : (Piece.words "update ").Fine b.dialect.quote :=
      IsWord.fine hd.quote (by decide)
    have hset : (Piece.words " set ").Fine b.dialect.quote :=
      IsWord.fine hd.quote (by decide)
    obtain ⟨hsetters, hcount⟩ := Piece.placeholders_assignments columns
    have hspaced : ∀ ps, Piece.Spaced b.dialect.quote false ps →
        Piece.Spaced b.dialect.quote true (updateBeginning t columns ++ ps) :=
      fun ps hps => ⟨nofun, hupdate, fun _ => rfl, trivial, nofun, hset,
        Piece.spaced_assignments hd.quote columns hps⟩
    have haligned := aligned_filters hd hcalls hspaced hsetters ho
    rw [show (updateBeginning t columns).countP Piece.isPlaceholder = columns.length from hcount]
      at haligned
    exact ⟨rfl, haligned⟩

/-- A page of rows on a dialect that numbers them: the key is bound twice, right after the
projection and before the filter. -/
theorem placeholders_aligned_sqlserver :
    let x : Symbol := ⟨0, 0⟩
    let q : Query := {
      generators := [⟨x, .table "who's ?"⟩]
      filters := [.binary .eq (.apply (.named "soundex") [.column x "[name]?"])
        (.parameter 0 .string)]
      orderBy := [⟨.bound .int (.int 7), { nulls := .last }⟩]
      projection := some (.bound .string (.string "it's ?"))
      offset := some 5 }
    ∃ s, q.compile .sqlserver = .ok s ∧ s.quote = .brackets ∧ Piece.Aligned s.quote 0 s.pieces
      [⟨.string, .constant (.string "it's ?")⟩, ⟨.int, .constant (.int 7)⟩,
        ⟨.int, .constant (.int 7)⟩, ⟨.string, .argument 0⟩] := by
  intro x q
  have hcalls : ∀ name ∈ calls q, Plain Dialect.sqlserver.quote name.toList := by
    intro name hname
    rw [List.mem_singleton.mp (show name ∈ ["soundex"] from hname)]
    exact Neutral.plain Database.sqlserver.legible.quote (by decide)
  cases hs : q.compile Dialect.sqlserver with
  | error e => cases hs
  | ok s =>
    exact ⟨s, rfl, (placeholders_aligned .sqlserver q hcalls).1 s hs⟩

end Query
end SqlCompiler
