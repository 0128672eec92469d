import Workbench.Proofs.Generate.Nested
import Workbench.Proofs.Graph.Groups
import Workbench.Proofs.Workflow.Sound

/-!
# A workflow that consists of a part is sound and one unit

A part is unfinished on its own only in that its exit has no edge yet, and
nothing asks for one. What the check asks for can be read off the tree: each
edge leaves from a port that the mark of its source has, no two edges leave from
the same port, and each loop has its end and its body edge. The run gate is
content because all of the part is reached from its entry and every node of it
is enabled.
-/

namespace Workbench

namespace Part

variable {part : Part} {edge : Edge}

theorem enabled_of_mem_marks {mark : Mark} (h : mark ∈ part.marks) :
    mark.enabled = true := by
  induction part with
  | action =>
      obtain rfl : mark = _ := by simpa [marks] using h
      rfl
  | branch =>
      simp only [marks, List.mem_cons, List.not_mem_nil, or_false] at h
      rcases h with rfl | rfl | rfl | rfl <;> rfl
  | loop head tail body after ih =>
      simp only [marks, Mark.ofLoop, List.cons_append, List.nil_append,
        List.mem_cons, List.mem_append, List.not_mem_nil, or_false] at h
      rcases h with rfl | rfl | h | rfl
      · rfl
      · rfl
      · exact ih h
      · rfl
  | link first second ih₁ ih₂ =>
      rcases List.mem_append.1 h with h | h
      · exact ih₁ h
      · exact ih₂ h

/-- The exit is an action. -/
theorem exit_mark_mem (part : Part) : { id := part.exit } ∈ part.marks := by
  induction part with
  | action | branch | loop => simp [exit, marks]
  | link first second ih₁ ih₂ => exact List.mem_append_right _ ih₂

/-- Each edge leaves from a port that its source has. -/
theorem exists_mark_of_mem_edges (h : edge ∈ part.edges) :
    ∃ mark ∈ part.marks, mark.id = edge.source ∧ edge.port ∈ mark.ports := by
  induction part with
  | action => simp [edges] at h
  | branch fork yes no join =>
      rcases mem_edges_branch.1 h with rfl | rfl | rfl | rfl <;>
        simp [marks, Mark.fork]
  | loop head tail body after ih =>
      rcases mem_edges_loop.1 h with rfl | hbody | rfl | rfl | rfl
      · simp [marks, Mark.ofLoop]
      · obtain ⟨mark, hmark, hport⟩ := ih hbody
        exact ⟨mark, by simp [marks, hmark], hport⟩
      · simp [marks, Mark.ofLoop]
      · exact ⟨{ id := body.exit }, by simp [marks, body.exit_mark_mem], rfl,
          List.mem_singleton_self none⟩
      · simp [marks, Mark.ofLoop]
  | link first second ih₁ ih₂ =>
      rcases mem_edges_link.1 h with hfirst | hsecond | rfl
      · obtain ⟨mark, hmark, hport⟩ := ih₁ hfirst
        exact ⟨mark, List.mem_append_left _ hmark, hport⟩
      · obtain ⟨mark, hmark, hport⟩ := ih₂ hsecond
        exact ⟨mark, List.mem_append_right _ hmark, hport⟩
      · exact ⟨_, List.mem_append_left _ first.exit_mark_mem, rfl,
          List.mem_singleton_self none⟩

/-- The edges leave from different ports. -/
def Apart (a b : Edge) : Prop := ¬ (a.source = b.source ∧ a.port = b.port)

theorem apart_of_source_ne {a b : Edge} (h : a.source ≠ b.source) : Apart a b :=
  fun hsame => h hsame.1

/-- No two edges leave from the same port. Within a part this is known already,
and an edge that is added to parts leaves a node that they do not have, or an
exit, or the head of a loop by another port. -/
theorem pairwise_apart (hids : part.ids.Nodup) : part.edges.Pairwise Apart := by
  induction part with
  | action => exact .nil
  | branch fork yes no join =>
      simp only [ids, List.nodup_cons, List.mem_cons, List.not_mem_nil,
        or_false, not_or] at hids
      obtain ⟨⟨hyes, hno, -⟩, ⟨hsides, -⟩, -⟩ := hids
      simp [edges, Apart, hyes, hno, hsides]
  | loop head tail body after ih =>
      obtain ⟨hne, hhead, -, htail, -, -, hbody⟩ := nodup_loop hids
      have hinner : ∀ a ∈ body.edges,
          a.source ≠ head ∧ a.source ≠ tail ∧ a.source ≠ body.exit :=
        fun a ha => ⟨ne_of_mem_of_not_mem (ends_mem_ids ha).1 hhead,
          ne_of_mem_of_not_mem (ends_mem_ids ha).1 htail, exit_free hbody ha⟩
      have hexit : body.exit ≠ head :=
        ne_of_mem_of_not_mem body.exit_mem_ids hhead
      have htail : tail ≠ body.exit :=
        (ne_of_mem_of_not_mem body.exit_mem_ids htail).symm
      simp only [edges, List.cons_append, List.append_assoc, List.nil_append,
        List.pairwise_cons, List.pairwise_append, List.mem_cons,
        List.mem_append, List.not_mem_nil, or_false]
      refine ⟨?_, ih hbody, ⟨?_, ⟨?_, by simp⟩⟩, ?_⟩
      · rintro b (hb | rfl | rfl | rfl)
        · exact apart_of_source_ne (hinner b hb).2.1.symm
        · exact apart_of_source_ne hne.symm
        · exact apart_of_source_ne htail
        · exact apart_of_source_ne hne.symm
      · rintro b (rfl | rfl)
        · exact apart_of_source_ne hexit.symm
        · intro hsame
          cases hsame.2
      · rintro b rfl
        exact apart_of_source_ne hexit
      · rintro a ha b (rfl | rfl | rfl)
        · exact apart_of_source_ne (hinner a ha).1
        · exact apart_of_source_ne (hinner a ha).2.2
        · exact apart_of_source_ne (hinner a ha).1
  | link first second ih₁ ih₂ =>
      obtain ⟨hfirst, hsecond, hdisjoint⟩ := nodup_link hids
      rw [edges, List.pairwise_append, List.pairwise_append]
      refine ⟨⟨ih₁ hfirst, ih₂ hsecond, ?_⟩, List.pairwise_singleton _ _, ?_⟩
      · intro a ha b hb
        have hsource := (ends_mem_ids hb).1
        exact apart_of_source_ne fun heq =>
          hdisjoint (ends_mem_ids ha).1 (heq ▸ hsource)
      · intro a ha b hb
        rw [List.mem_singleton.1 hb]
        rcases List.mem_append.1 ha with ha | ha
        · exact apart_of_source_ne (exit_free hfirst ha)
        · have hsource := (ends_mem_ids ha).1
          exact apart_of_source_ne
            (ne_of_mem_of_not_mem hsource (hdisjoint first.exit_mem_ids))

end Part

namespace Workflow

variable {workflow : Workflow} {part : Part}

/-- A workflow whose enabled nodes all hang together does not fall apart. -/
theorem splits_eq_nil_of_hangTogether
    (h : ∀ a b, workflow.IsEnabled a → workflow.IsEnabled b →
      workflow.HangTogether a b) :
    workflow.splits = [] := by
  obtain ⟨groups, hgroups⟩ : ∃ groups, workflow.Grouping groups :=
    ⟨_, grouping_groupsAlong (enabledArcs_enabledArcs workflow)⟩
  have hlength : groups.length ≤ 1 := by
    match groups, hgroups with
    | [], _ => exact Nat.zero_le 1
    | [_], _ => exact Nat.le_refl 1
    | first :: second :: rest, hgroups =>
        -- Both are the company of an enabled node, so they are one and cannot
        -- be in order.
        obtain ⟨a, b, hab, hfirst⟩ := hgroups.is_company first (by simp)
        obtain ⟨c, d, hcd, hsecond⟩ := hgroups.is_company second (by simp)
        have hlt := (List.pairwise_cons.1 hgroups.ordered).1 second (by simp)
        rw [hfirst, hsecond, company_congr (h a c hab.left hcd.left)] at hlt
        exact absurd hlt (Nat.lt_irrefl _)
  rw [splits_eq hgroups, if_pos hlength]

namespace Laid

theorem exists_node (h : workflow.Laid part) {mark : Mark}
    (hmark : mark ∈ part.marks) :
    ∃ node ∈ workflow.nodes, node.mark = mark := by
  rw [← h.marks_eq] at hmark
  exact List.mem_map.1 hmark

theorem mark_mem (h : workflow.Laid part) {node : Node}
    (hnode : node ∈ workflow.nodes) : node.mark ∈ part.marks := by
  rw [← h.marks_eq]
  exact List.mem_map_of_mem hnode

theorem exists_node_of_mem_ids (h : workflow.Laid part) {id : Uuid}
    (hid : id ∈ part.ids) : ∃ node ∈ workflow.nodes, node.id = id := by
  rw [← h.ids_eq] at hid
  exact List.mem_map.1 hid

theorem exists_round_of_loop (h : workflow.Laid part) {node : Node}
    (hnode : node ∈ workflow.nodes) (hloop : ∃ loop, node.step = .loop loop) :
    ∃ round ∈ part.rounds, round.head = node.id := by
  have hmem : node.id ∈ (workflow.nodes.filter (·.isLoop)).map (·.id) :=
    List.mem_map_of_mem (List.mem_filter.2 ⟨hnode, Node.isLoop_iff.2 hloop⟩)
  rw [h.loopIds_eq] at hmem
  exact List.mem_map.1 hmem

/-- A node ends a loop exactly if the part has a loop with this head and this
end. -/
theorem exists_closes_iff (h : workflow.Laid part) {head tail : Uuid} :
    (∃ node ∈ workflow.nodes, node.step = .endLoop ⟨head⟩ ∧ node.id = tail) ↔
      ∃ round ∈ part.rounds, round.head = head ∧ round.tail = tail := by
  rw [← Part.exists_closes_iff, ← h.marks_eq]
  simp [Node.closes?_eq_some_iff]

theorem sound (h : workflow.Laid part) : workflow.Sound where
  ids_nodup := h.ids_eq ▸ h.nodup
  source_exists edge hedge :=
    h.exists_node_of_mem_ids (Part.ends_mem_ids (h.edges_eq ▸ hedge)).1
  target_exists edge hedge :=
    h.exists_node_of_mem_ids (Part.ends_mem_ids (h.edges_eq ▸ hedge)).2
  port_declared edge hedge node hnode hid := by
    obtain ⟨mark, hmark, hsource, hport⟩ :=
      Part.exists_mark_of_mem_edges (h.edges_eq ▸ hedge)
    obtain ⟨found, hfound, rfl⟩ := h.exists_node hmark
    have hsame :=
      eq_of_id_eq (h.ids_eq ▸ h.nodup) hnode hfound (hid.trans hsource.symm)
    exact hsame ▸ hport
  port_single := by
    rw [h.edges_eq]
    exact Part.pairwise_apart h.nodup
  end_of_loop node hnode loopId hstep := by
    obtain ⟨round, hround, rfl, -⟩ :=
      h.exists_closes_iff.1 ⟨node, hnode, hstep, rfl⟩
    have hhead := List.mem_map_of_mem (f := (·.head)) hround
    rw [← h.loopIds_eq] at hhead
    obtain ⟨head, hmem, hid⟩ := List.mem_map.1 hhead
    obtain ⟨hmem, hloop⟩ := List.mem_filter.1 hmem
    exact ⟨head, hmem, hid, Node.isLoop_iff.1 hloop⟩
  ended_once node hnode hloop := by
    obtain ⟨round, hround, hhead⟩ := h.exists_round_of_loop hnode hloop
    obtain ⟨last, hlast, hends, htail⟩ :=
      h.exists_closes_iff.2 ⟨round, hround, hhead, rfl⟩
    refine ⟨last, ⟨hlast, hends⟩, fun other hother => ?_⟩
    obtain ⟨round', hround', hhead', htail'⟩ :=
      h.exists_closes_iff.1 ⟨other, hother.1, hother.2, rfl⟩
    have hsame :=
      List.inj_on_of_nodup_map (Part.nodup_heads h.nodup) hround' hround
      (hhead'.trans hhead.symm)
    refine eq_of_id_eq (h.ids_eq ▸ h.nodup) hother.1 hlast ?_
    rw [← htail', hsame, htail]
  has_body node hnode hloop := by
    obtain ⟨round, hround, hhead⟩ := h.exists_round_of_loop hnode hloop
    refine ⟨⟨round.head, round.body.entry, some .loopBody⟩, ?_, hhead, rfl⟩
    rw [h.edges_eq]
    exact Part.body_edge_mem hround

theorem isEnabled_iff (h : workflow.Laid part) {id : Uuid} :
    workflow.IsEnabled id ↔ id ∈ part.ids := by
  rw [← h.ids_eq, List.mem_map]
  refine ⟨fun ⟨node, hnode, _, hid⟩ => ⟨node, hnode, hid⟩,
    fun ⟨node, hnode, hid⟩ => ?_⟩
  exact ⟨node, hnode, Part.enabled_of_mem_marks (h.mark_mem hnode), hid⟩

theorem splits_eq_nil (h : workflow.Laid part) : workflow.splits = [] := by
  have hentry : ∀ v ∈ part.ids, workflow.HangTogether part.entry v := by
    intro v hv
    have hreach := Part.reaches_of_mem_ids hv
    clear hv
    induction hreach with
    | refl => exact .refl _
    | tail _ hjoin ih =>
        obtain ⟨edge, hedge, rfl, rfl⟩ := hjoin
        obtain ⟨hsource, htarget⟩ := Part.ends_mem_ids hedge
        refine .trans _ _ _ ih
          (.rel _ _ ⟨h.isEnabled_iff.2 hsource, h.isEnabled_iff.2 htarget, ?_⟩)
        exact ⟨edge, h.edges_eq ▸ hedge, rfl, rfl⟩
  refine splits_eq_nil_of_hangTogether fun a b ha hb => ?_
  exact .trans _ _ _ (.symm _ _ (hentry a (h.isEnabled_iff.1 ha)))
    (hentry b (h.isEnabled_iff.1 hb))

end Laid

end Workflow

end Workbench
