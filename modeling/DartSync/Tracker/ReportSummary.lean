import DartSync.Tracker.SourceList

/-!
# What the tracker's table says about the reports

A closed form of `update_filetable` over whole histories.  The table lists each
reported name once, in the order of first report.  An entry carries the newest
version reported for its name, the type and status of the earliest report of
that version, and the first reporters of it.
-/

namespace DartSync
namespace Tracker

open Foundation

def carriers (reports : List Node) (e : Node) : List Node :=
  reports.filter (fun r => r.name = e.name ∧ r.version = e.version)

structure Summarises (reports : List Node) (e : Node) : Prop where
  newest : forall r, r ∈ reports -> r.name = e.name -> r.version ≤ e.version
  earliest : exists r, (carriers reports e).head? = some r ∧
    e.type = r.type ∧ e.status = r.status
  peers : Dense CString.empty e.newpeerip
    (firstDistinct MAX_PEER_NUM ((carriers reports e).map Node.reporter))

structure ClosedForm (reports nodes : List Node) : Prop where
  names : nodes.map Node.name = (reports.map Node.name).eraseDups
  entries : forall e, e ∈ nodes -> Summarises reports e

/-!
## Carriers of one more report
-/

theorem carriers_concat_of_carries {reports : List Node} {e p : Node}
    (hname : p.name = e.name) (hversion : p.version = e.version) :
    carriers (reports ++ [p]) e = carriers reports e ++ [p] := by
  unfold carriers
  rw [List.filter_append]
  simp [hname, hversion]

theorem carriers_concat_of_not {reports : List Node} {e p : Node}
    (h : ¬ (p.name = e.name ∧ p.version = e.version)) :
    carriers (reports ++ [p]) e = carriers reports e := by
  unfold carriers
  rw [List.filter_append]
  simp [h]

theorem carriers_eq_nil {reports : List Node} {e : Node}
    (h : forall r, r ∈ reports -> r.name = e.name -> r.version < e.version) :
    carriers reports e = [] := by
  unfold carriers
  rw [List.filter_eq_nil_iff]
  intro r hr
  simp only [decide_eq_true_eq, not_and]
  intro hname hversion
  exact absurd (h r hr hname) (not_lt_of_ge hversion.ge)

theorem carriers_congr {reports : List Node} {e e' : Node}
    (hname : e.name = e'.name) (hversion : e.version = e'.version) :
    carriers reports e = carriers reports e' := by
  unfold carriers
  rw [hname, hversion]

/-!
## The effect of one report on a summary
-/

section Report

variable {reports : List Node} {p t : Node}

theorem Summarises.other_name (h : Summarises reports t)
    (hname : p.name ≠ t.name) : Summarises (reports ++ [p]) t := by
  have hcarriers : carriers (reports ++ [p]) t = carriers reports t :=
    carriers_concat_of_not fun hcarries => hname hcarries.left
  constructor
  · intro r hr hrname
    rcases List.mem_append.mp hr with hr | hr
    · exact h.newest r hr hrname
    · exact absurd (List.mem_singleton.mp hr ▸ hrname) hname
  · rw [hcarriers]
    exact h.earliest
  · rw [hcarriers]
    exact h.peers

theorem Summarises.older_version (h : Summarises reports t)
    (hversion : p.version < t.version) : Summarises (reports ++ [p]) t := by
  have hcarriers : carriers (reports ++ [p]) t = carriers reports t :=
    carriers_concat_of_not fun hcarries =>
      absurd hcarries.right (ne_of_lt hversion)
  constructor
  · intro r hr hrname
    rcases List.mem_append.mp hr with hr | hr
    · exact h.newest r hr hrname
    · rw [List.mem_singleton.mp hr]
      exact hversion.le
  · rw [hcarriers]
    exact h.earliest
  · rw [hcarriers]
    exact h.peers

theorem Summarises.same_version (h : Summarises reports t)
    (hname : p.name = t.name) (hversion : t.version = p.version)
    (hp : p.reporter ≠ CString.empty) :
    Summarises (reports ++ [p]) (updateFilePeers t p) := by
  have hcarriers : carriers (reports ++ [p]) (updateFilePeers t p) =
      carriers reports t ++ [p] := by
    rw [carriers_concat_of_carries (hname.trans (updateFilePeers_name t p).symm)
      (hversion.symm.trans (updateFilePeers_version t p).symm),
      carriers_congr (updateFilePeers_name t p) (updateFilePeers_version t p)]
  constructor
  · intro r hr hrname
    rw [updateFilePeers_version]
    rw [updateFilePeers_name] at hrname
    rcases List.mem_append.mp hr with hr | hr
    · exact h.newest r hr hrname
    · rw [List.mem_singleton.mp hr]
      exact hversion.ge
  · rcases h.earliest with ⟨r, hr, htype, hstatus⟩
    refine ⟨r, ?_, ?_, ?_⟩
    · rw [hcarriers, List.head?_append, hr]
      rfl
    · rw [updateFilePeers_type, htype]
    · rw [updateFilePeers_status, hstatus]
  · rw [hcarriers, List.map_append, List.map_singleton, firstDistinct_concat]
    exact (updateFilePeers_dense h.peers hp)

theorem Summarises.of_newest {e : Node}
    (hold : forall r, r ∈ reports -> r.name = p.name -> r.version < p.version)
    (hname : e.name = p.name) (hversion : e.version = p.version)
    (htype : e.type = p.type) (hstatus : e.status = p.status)
    (hpeers : e.newpeerip = onlyPeer p.reporter)
    (hp : p.reporter ≠ CString.empty) : Summarises (reports ++ [p]) e := by
  have hcarriers : carriers (reports ++ [p]) e = [p] := by
    rw [carriers_concat_of_carries hname.symm hversion.symm,
      carriers_congr hname hversion, carriers_eq_nil hold]
    rfl
  constructor
  · intro r hr hrname
    rw [hversion]
    rcases List.mem_append.mp hr with hr | hr
    · exact (hold r hr (hrname.trans hname)).le
    · rw [List.mem_singleton.mp hr]
  · exact ⟨p, by rw [hcarriers]; rfl, htype, hstatus⟩
  · rw [hcarriers, hpeers]
    exact (onlyPeer_lists hp).dense

theorem Summarises.updateEntry (h : Summarises reports t)
    (hname : p.name = t.name) (hp : p.reporter ≠ CString.empty) :
    Summarises (reports ++ [p]) (updateEntry p t) := by
  rcases lt_trichotomy t.version p.version with hv | hv | hv
  · rw [updateEntry_of_version_lt hv]
    refine Summarises.of_newest ?_ hname.symm rfl rfl rfl rfl hp
    intro r hr hrname
    exact lt_of_le_of_lt (h.newest r hr (hrname.trans hname)) hv
  · rw [updateEntry_of_version_eq hv]
    exact h.same_version hname hv hp
  · rw [updateEntry_of_version_gt hv]
    exact h.older_version hv

end Report

/-!
## The closed form along a history
-/

theorem ClosedForm.nodup_names {reports nodes : List Node}
    (h : ClosedForm reports nodes) : (nodes.map Node.name).Nodup := by
  rw [h.names]
  exact nodup_eraseDups _

theorem closedForm_mergeNode {reports : List Node} {ft : FileTable} {p : Node}
    (h : ClosedForm reports ft.nodes) (hp : p.reporter ≠ CString.empty) :
    ClosedForm (reports ++ [p]) (mergeNode ft p).nodes := by
  constructor
  · rw [names_mergeNode, List.map_append, List.map_singleton,
      eraseDups_concat, h.names]
    by_cases hmem : p.name ∈ reports.map Node.name
    · rw [if_pos (List.mem_eraseDups.mpr hmem), if_pos hmem]
    · rw [if_neg fun hname => hmem (List.mem_eraseDups.mp hname), if_neg hmem]
  · intro e he
    have hlookup : entry e.name (mergeNode ft p) = some e :=
      lookup_of_mem (nodup_names_mergeNode p h.nodup_names) he
    by_cases hname : e.name = p.name
    · rw [hname, entry_mergeNode_self, Option.some_inj] at hlookup
      rw [← hlookup]
      cases ht : entry p.name ft with
      | none =>
          -- no earlier report of this name
          refine Summarises.of_newest ?_ rfl rfl rfl rfl rfl hp
          intro r hr hrname
          have hnone := lookup_eq_none_iff.mp ht
          rw [h.names, List.mem_eraseDups] at hnone
          exact absurd (hrname ▸ List.mem_map_of_mem hr) hnone
      | some t =>
          exact (h.entries t (mem_of_lookup ht)).updateEntry
            (key_of_lookup ht).symm hp
    · rw [entry_mergeNode_of_ne ft hname] at hlookup
      exact (h.entries e (mem_of_lookup hlookup)).other_name (Ne.symm hname)

theorem closedForm_updateFiletable {reports peerFt : List Node}
    {ft ft' : FileTable} (h : ClosedForm reports ft.nodes)
    (hp : forall p, p ∈ peerFt -> p.reporter ≠ CString.empty)
    (hupdate : updateFiletable ft peerFt = some ft') :
    ClosedForm (reports ++ peerFt) ft'.nodes := by
  rw [← (updateFiletable_eq_some_iff.mp hupdate).left]
  clear hupdate
  induction peerFt generalizing ft reports with
  | nil =>
      rw [List.append_nil]
      exact h
  | cons p rest ih =>
      rw [List.append_cons]
      apply ih
      · exact closedForm_mergeNode h (hp p List.mem_cons_self)
      · intro q hq
        exact hp q (List.mem_cons_of_mem p hq)

theorem closedForm_runFrom {reports : List Node} {ft : FileTable}
    {tables : List (List Node)} (hft : ft ≠ none)
    (h : ClosedForm reports ft.nodes)
    (hp : forall peerFt, peerFt ∈ tables -> forall p, p ∈ peerFt ->
      p.reporter ≠ CString.empty) :
    exists ft', runFrom updateFiletable ft tables = some ft' ∧
      ClosedForm (reports ++ tables.flatten) ft'.nodes := by
  induction tables generalizing ft reports with
  | nil =>
      refine ⟨ft, rfl, ?_⟩
      rw [List.flatten_nil, List.append_nil]
      exact h
  | cons peerFt rest ih =>
      cases hupdate : updateFiletable ft peerFt with
      | none => exact absurd (updateFiletable_eq_none_iff.mp hupdate).left hft
      | some ft1 =>
          have h1 := closedForm_updateFiletable h
            (hp peerFt List.mem_cons_self) hupdate
          rcases ih (updateFiletable_eq_some_iff.mp hupdate).right h1
            (fun table htable => hp table (List.mem_cons_of_mem _ htable)) with
            ⟨ft', hrun, hclosed⟩
          refine ⟨ft', ?_, ?_⟩
          · rw [runFrom, hupdate]
            exact hrun
          · rw [List.flatten_cons, ← List.append_assoc]
            exact hclosed

theorem closedForm_nil : ClosedForm [] (FileTable.nodes none) where
  names := rfl
  entries := by
    intro e he
    cases he

/-- The table is the closed form of the reports exactly when the first report
is not empty; an empty first report makes `display_filetable` dereference the
null table. -/
theorem updateFiletable_closedForm_iff {tables : List (List Node)}
    (hp : forall peerFt, peerFt ∈ tables -> forall p, p ∈ peerFt ->
      p.reporter ≠ CString.empty) :
    (exists ft, runFrom updateFiletable none tables = some ft ∧
        ClosedForm tables.flatten ft.nodes) <->
      tables.head? ≠ some [] := by
  cases tables with
  | nil => exact ⟨fun _ => by simp, fun _ => ⟨none, rfl, closedForm_nil⟩⟩
  | cons peerFt rest =>
      cases hupdate : updateFiletable none peerFt with
      | none =>
          have hempty := (updateFiletable_eq_none_iff.mp hupdate).right
          subst hempty
          constructor
          · intro h
            rcases h with ⟨ft, hrun, _⟩
            rw [runFrom, hupdate] at hrun
            cases hrun
          · intro hhead
            exact absurd rfl hhead
      | some ft1 =>
          have hne : peerFt ≠ [] := by
            intro h
            cases h
            cases hupdate
          have h1 := closedForm_updateFiletable closedForm_nil
            (hp peerFt List.mem_cons_self) hupdate
          rw [List.nil_append] at h1
          rcases closedForm_runFrom
            (updateFiletable_eq_some_iff.mp hupdate).right h1
            (fun table htable => hp table (List.mem_cons_of_mem _ htable)) with
            ⟨ft', hrun, hclosed⟩
          constructor
          · intro _
            simpa using hne
          · intro _
            refine ⟨ft', ?_, hclosed⟩
            rw [runFrom, hupdate]
            exact hrun

def Sample.reports : List (List Node) :=
  [[Sample.node Sample.ipA Sample.fileA 100 5 FILE_CREATE],
    [Sample.node Sample.ipB Sample.fileA 100 5 FILE_CREATE],
    [Sample.node Sample.ipA Sample.fileA 100 5 FILE_CREATE],
    [Sample.node Sample.ipB Sample.fileA 200 6 FILE_MODIFY,
      Sample.node Sample.ipB Sample.fileB 200 1 FILE_CREATE],
    [],
    [Sample.node Sample.ipA Sample.fileA 200 6 FILE_MODIFY],
    [Sample.node Sample.ipB Sample.fileA 200 6 FILE_MODIFY]]

theorem updateFiletable_closedForm_reports :
    exists ft, runFrom updateFiletable none Sample.reports = some ft ∧
      ft.nodes.map (fun e => (e.name, e.timestamp, e.peers)) =
        [(Sample.fileA, 200, [Sample.ipB, Sample.ipA]),
          (Sample.fileB, 200, [Sample.ipB])] ∧
      ClosedForm Sample.reports.flatten ft.nodes := by
  rcases (@updateFiletable_closedForm_iff Sample.reports (by decide)).mpr
    (by decide) with ⟨ft, hrun, hclosed⟩
  refine ⟨ft, hrun, ?_, hclosed⟩
  cases hrun
  decide

/-- A peer without files may report first. -/
theorem updateFiletable_faults_on_empty_first_report :
    (forall peerFt, peerFt ∈ [([] : List Node)] ->
      forall p, p ∈ peerFt -> p.reporter ≠ CString.empty) ∧
    ¬ exists ft, runFrom updateFiletable none [[]] = some ft ∧
      ClosedForm [[]].flatten ft.nodes := by
  constructor
  · decide
  · intro h
    rcases h with ⟨ft, hrun, _⟩
    cases hrun

end Tracker
end DartSync
