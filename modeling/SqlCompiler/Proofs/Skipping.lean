import SqlCompiler.Proofs.Capabilities
import SqlCompiler.Proofs.Discipline
import SqlCompiler.Proofs.Sections

/-!
# Rows left to the caller

A dialect that knows only the topmost rows leaves it to the caller to drop the rows before the
offset.  That works for the outermost query alone, and such a dialect refuses to page any other.
So nothing but the beginning of the outermost query says how many rows there are to drop.

* `Script.Quiet` — scripts that leave no rows to the caller.
* `Script.quiet_tree` — the script of every tree is one, and so is that of a subquery.
* `Query.skipRows_of_written` — the rows that a statement leaves to the caller.
-/

set_option autoImplicit false
namespace SqlCompiler
namespace Script

/-- A script that leaves no rows to the caller to skip. -/
def Quiet (σ : Script) : Prop :=
  ∀ ⦃aliases : Aliases⦄ ⦃nested : Bool⦄ ⦃count : Nat⦄ ⦃o : Output⦄,
    σ.output aliases nested count = .ok o → o.skipRows = none

theorem Quiet.append {σ τ : Script} (hσ : Quiet σ) (hτ : Quiet τ) : Quiet (σ ++ τ) := by
  intro aliases nested count o ho
  obtain ⟨x, y, hx, hy, rfl⟩ := output_append_eq_ok ho
  rw [Output.append, hσ hx, hτ hy, Option.or_none]

theorem quiet_piece (p : Piece) : Quiet (piece p) := by
  intro aliases nested count o ho
  cases ho
  rfl

theorem quiet_done : Quiet done := by
  intro aliases nested count o ho
  cases ho
  rfl

theorem quiet_fail (e : Error) : Quiet (fail e) := by
  intro aliases nested count o ho
  cases ho

theorem quiet_check (e : Except Error Unit) : Quiet (check e) := by
  intro aliases nested count o ho
  rw [output_check_eq_ok ho]

theorem quiet_literal (d : Dialect) (c : Literal) : Quiet (literal d c) := by
  rw [literal]
  split
  · cases (d.types.column c.kind).toCell c.value with
    | error e => exact quiet_fail e
    | ok cell => exact quiet_piece _
  · split
    · exact quiet_fail _
    · cases (d.types.column c.kind).inline c.value with
      | error e => exact quiet_fail e
      | ok text => exact quiet_piece _

theorem discipline_quiet (d : Dialect) :
    Discipline d id (fun _ => True) fun _ _ σ _ => Quiet σ where
  done _ := quiet_done
  append hσ hτ := hσ.append hτ
  relax h := h
  check _ e := quiet_check e
  fails hσ _ := by
    intro aliases nested count o ho
    cases (hσ aliases nested count).symm.trans ho
  words _ _ := quiet_piece _
  call _ := quiet_piece _
  name _ _ := quiet_piece _
  nameText _ _ := quiet_piece _
  literal c _ := quiet_literal d c
  placeholder _ _ _ := quiet_piece _
  reference s _ := by
    intro aliases nested count o ho
    obtain ⟨q, -, rfl⟩ := Aliases.map_lookup_eq_ok ho
    rfl
  sourceAlias s _ := by
    intro aliases nested count o ho
    obtain ⟨q, -, rfl⟩ := Aliases.map_lookup_eq_ok ho
    rfl

/-- Only a dialect that knows the topmost rows alone leaves rows to the caller. -/
theorem quiet_modifiers {d : Dialect} {r : Clauses Rendering}
    (h : d.paging = .top → r.fetch = none) : Quiet (modifiers d r) := by
  rw [modifiers]
  split
  · next fetch hpaging hfetch =>
    rw [h hpaging] at hfetch
    cases hfetch
  · split
    · exact quiet_piece _
    · exact quiet_done
  · exact quiet_done

variable {d : Dialect} {aliases : Aliases} {nested : Bool} {count : Nat}

/-- The rows left to the caller are those that the beginning of a query says. -/
theorem skipRows_sections (hd : d.Balanced) {q : Query} {t : Sections}
    (hq : ∀ n ∈ q.children, Query.WithChildren (fun n => Quiet (n.script d)) n)
    (ht : t.Of d (Query.rendering d q) aliases nested count) :
    t.skipRows = t.modifiers.skipRows := by
  have discipline := discipline_quiet d
  have hq : ∀ n ∈ q.children,
      Query.WithChildren (Discipline.Holds d id fun _ _ σ _ => Quiet σ) n :=
    fun n hn => ⟨fun _ => (hq n hn).1, fun m hm _ => (hq n hn).2 m hm⟩
  have hselect := discipline.select .refl (fun n hn => hq n (Clauses.projection_mem_children hn)) 0
  have hfrom := discipline.from_ .refl hd
    (fun g hg => (hq g.source (Clauses.source_mem_children hg)).1) 0
  have hfilters := discipline.filters (fun n hn => (hq n (Clauses.filter_mem_children hn)).1) 0
  have hgroup := discipline.groupBy .refl
    (fun n hn => hq n (Clauses.groupBy_mem_children hn)) 0
  have horder := discipline.orderBy
    (fun key hk => (hq key.key (Clauses.key_mem_children hk)).1) 0
  have hpaging := discipline.paging (q := q) (t := id) hd 0
  rw [Sections.skipRows, hpaging ht.paging, horder ht.orderBy, hgroup ht.groupBy,
    hfilters ht.filters, hfrom ht.sources, hselect ht.select]
  rfl

/-- **No tree leaves rows to the caller**, and no query inside another one does. -/
theorem quiet_tree (hd : d.Balanced) (htop : d.paging = .top → d.supports .pagingNested = false) :
    (∀ n : Node, Quiet (n.script d))
      ∧ ∀ q : Query, ∀ ⦃aliases : Aliases⦄ ⦃count : Nat⦄ ⦃o : Output⦄,
          (Query.script d q).output aliases true count = .ok o → o.skipRows = none := by
  have discipline := discipline_quiet d
  refine Query.writing_induct d ?_ ?_ ?_ ?_ ?_
  · intro s hquery ih
    exact discipline.expression .refl hd hquery (fun _ _ => trivial) (fun n hn _ => ih n hn) 0
  · intro q ih
    rw [Node.script_query]
    have hdeeper : Quiet (deeper (Query.script d q)) := fun aliases nested count o ho => ih ho
    exact ((quiet_piece _).append hdeeper).append (quiet_piece _)
  · intro q hnumbers ih aliases count o ho
    rw [Query.script_eq_clauses hnumbers] at ho
    obtain ⟨x, y, hx, hy, rfl⟩ := output_append_eq_ok ho
    obtain ⟨t, ht, -, hskip⟩ := output_body_eq_ok hy
    have hmodifiers : Quiet (modifiers d (Query.rendering d q)) := by
      refine quiet_modifiers fun hpaging => ?_
      -- a paged query inside another one would have been refused
      have hsupports := (Query.supports_paging (check_eq_ok_of_output_ok hx)).1
      cases hfetch : q.fetch with
      | none => exact hfetch
      | some fetch =>
        have hpaged : q.isPaged = true := by rw [Clauses.isPaged, hfetch]; rfl
        rw [htop hpaging] at hsupports
        cases hsupports ⟨rfl, hpaged⟩
    rw [output_checkPaging_eq_ok hx, Output.append, hskip, skipRows_sections hd ih ht,
      hmodifiers ht.modifiers]
    rfl
  · intro q p hnumbers hp ih
    rw [Query.script_of_numbers hnumbers, hp]
    exact ih
  · intro q e hnumbers he aliases count o ho
    rw [Query.script_of_numbers hnumbers, he] at ho
    cases ho

end Script

/-- A dialect that knows the topmost rows alone pages neither a query inside another one, nor one
without a number of rows to fetch. -/
theorem Database.supports_of_top {b : Database} (h : b.dialect.paging = .top) :
    b.dialect.supports .pagingNested = false ∧ b.dialect.supports .pagingDrop = false := by
  cases b with
  | access => decide
  | _ => cases h

/-- **The rows that a statement leaves to the caller** are those that the beginning of its outermost
query says. -/
theorem Query.skipRows_of_written {b : Database} {q p : Query} {s : Statement} {t : Sections}
    (h : Written b.dialect q s p t) : s.skipRows = t.modifiers.skipRows.getD 0 := by
  have hquiet := (Script.quiet_tree b.balanced fun htop => (b.supports_of_top htop).1).1
  rw [h.skipRows, Script.skipRows_sections b.balanced (fun n _ => ⟨hquiet n, fun m _ => hquiet m⟩)
    h.of]

end SqlCompiler
