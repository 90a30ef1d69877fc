import DartSync.Foundation.Newest
import DartSync.Tracker.SourceList

/-!
# The order of reports

What `update_filetable` makes of several reported tables, one name at a time,
and when it does not depend on the order in which they arrive.
-/

namespace DartSync
namespace Tracker

open Foundation

/-!
## All reports of one name
-/

def mergeAll (t? : Option Node) (reports : List Node) : Option Node :=
  reports.foldl (fun t? p => some (mergeEntry p t?)) t?

def reportsOf (f : FileName) (peerFt : List Node) : List Node :=
  peerFt.filter (fun p => p.name = f)

theorem entry_foldl_mergeNode_eq (f : FileName) (ft : FileTable)
    (peerFt : List Node) :
    entry f (peerFt.foldl mergeNode ft) =
      mergeAll (entry f ft) (reportsOf f peerFt) := by
  induction peerFt generalizing ft with
  | nil => rfl
  | cons p rest ih =>
      rw [List.foldl_cons, ih]
      unfold reportsOf
      cases Classical.em (p.name = f) with
      | inl hname =>
          rw [List.filter_cons, if_pos (decide_eq_true hname), ← hname,
            entry_mergeNode_self]
          rfl
      | inr hname =>
          rw [List.filter_cons, if_neg (by simpa using hname),
            entry_mergeNode_of_ne ft (Ne.symm hname)]

theorem mergeAll_concat (t? : Option Node) (reports : List Node) (p : Node) :
    mergeAll t? (reports ++ [p]) =
      some (mergeEntry p (mergeAll t? reports)) := by
  unfold mergeAll
  rw [List.foldl_append]
  rfl

def claimants (t? : Option Node) (reports : List Node) (v : Version) :
    List Ip :=
  ((t?.toList.filter (fun t => t.version = v)).flatMap Node.peers ++
      (reports.filter (fun p => p.version = v)).map Node.reporter).filter
    (fun ip => ip.strlen ≠ 0)

/-- The entry that reports lead to: it has the version and the type of the
newest, the earlier one between equals, and the first addresses that list or
report that version. -/
structure Merged (t? : Option Node) (reports : List Node) (e : Node) :
    Prop where
  newest : exists a, newest Node.version (t?.toList ++ reports) = some a ∧
    e.version = a.version ∧ e.type = a.type
  peers : Lists e.newpeerip
    (firstDistinct MAX_PEER_NUM (claimants t? reports e.version))

section Merge

variable {t? : Option Node} {reports : List Node} {e p : Node}

theorem Merged.le (h : Merged t? reports e) {x : Node}
    (hx : x ∈ t?.toList ++ reports) : x.version ≤ e.version := by
  rcases h.newest with ⟨a, hnewest, hversion, _⟩
  rw [hversion]
  exact le_of_newest hnewest hx

theorem claimants_concat_of_eq {v : Version} (h : p.version = v) :
    claimants t? (reports ++ [p]) v =
      claimants t? reports v ++
        [p.reporter].filter (fun ip => ip.strlen ≠ 0) := by
  have hreports : (reports ++ [p]).filter (fun p => p.version = v) =
      reports.filter (fun p => p.version = v) ++ [p] := by
    rw [List.filter_append]
    simp [h]
  unfold claimants
  rw [hreports, List.map_append, ← List.append_assoc, List.filter_append]
  rfl

theorem claimants_concat_of_ne {v : Version} (h : p.version ≠ v) :
    claimants t? (reports ++ [p]) v = claimants t? reports v := by
  have hreports : (reports ++ [p]).filter (fun p => p.version = v) =
      reports.filter (fun p => p.version = v) := by
    rw [List.filter_append]
    simp [h]
  unfold claimants
  rw [hreports]

theorem claimants_eq_nil {v : Version}
    (h : forall x, x ∈ t?.toList ++ reports -> x.version < v) :
    claimants t? reports v = [] := by
  have hstart : t?.toList.filter (fun t => t.version = v) = [] := by
    rw [List.filter_eq_nil_iff]
    intro t ht
    simpa using ne_of_lt (h t (List.mem_append_left _ ht))
  have hreports : reports.filter (fun p => p.version = v) = [] := by
    rw [List.filter_eq_nil_iff]
    intro q hq
    simpa using ne_of_lt (h q (List.mem_append_right _ hq))
  unfold claimants
  rw [hstart, hreports]
  rfl

theorem merged_nil {t : Node} (h : exists l, Lists t.newpeerip l) :
    Merged (some t) [] t where
  newest := ⟨t, rfl, rfl, rfl⟩
  peers := by
    rcases h with ⟨l, hl⟩
    have hpeers : t.peers = l := hl.dense.occupied_eq
    have hclaimants : claimants (some t) [] t.version = l := by
      unfold claimants
      simp only [Option.toList_some, List.filter_cons, decide_true, if_true,
        List.filter_nil, List.flatMap_cons, List.flatMap_nil, List.map_nil,
        List.append_nil, hpeers]
      rw [List.filter_eq_self]
      intro ip hip
      apply decide_eq_true
      rw [ne_eq, CString.strlen_eq_zero_iff]
      intro hempty
      exact hl.dense.notMem_blank (hempty ▸ hip)
    rw [hclaimants, firstDistinct_of_nodup hl.nodup hl.dense.length_le]
    exact hl

theorem filter_strlen_of_empty {ip : Ip} (h : ip = CString.empty) :
    [ip].filter (fun ip => ip.strlen ≠ 0) = [] := by
  rw [h]
  rfl

theorem filter_strlen_of_ne {ip : Ip} (h : ip ≠ CString.empty) :
    [ip].filter (fun ip => ip.strlen ≠ 0) = [ip] := by
  rw [List.filter_eq_self]
  intro a ha
  rw [List.mem_singleton.mp ha, decide_eq_true_eq, ne_eq,
    CString.strlen_eq_zero_iff]
  exact h

theorem onlyPeer_lists_firstDistinct (ip : Ip) :
    Lists (onlyPeer ip) (firstDistinct MAX_PEER_NUM
      ([ip].filter (fun ip => ip.strlen ≠ 0))) := by
  cases Classical.em (ip = CString.empty) with
  | inl hempty =>
      rw [filter_strlen_of_empty hempty]
      exact onlyPeer_lists_of_empty hempty
  | inr hne =>
      rw [filter_strlen_of_ne hne,
        firstDistinct_of_nodup (List.nodup_singleton ip)
          (show 1 ≤ MAX_PEER_NUM by decide)]
      exact onlyPeer_lists hne

theorem updateFilePeers_lists_firstDistinct {t : Node} {l : List Ip}
    (h : Lists t.newpeerip (firstDistinct MAX_PEER_NUM l)) :
    Lists (updateFilePeers t p).newpeerip (firstDistinct MAX_PEER_NUM
      (l ++ [p.reporter].filter (fun ip => ip.strlen ≠ 0))) := by
  cases Classical.em (p.reporter = CString.empty) with
  | inl hempty =>
      rw [filter_strlen_of_empty hempty, List.append_nil]
      exact updateFilePeers_lists_of_empty h hempty
  | inr hne =>
      rw [filter_strlen_of_ne hne, firstDistinct_concat]
      exact updateFilePeers_lists h hne

theorem merged_of_newer
    (hold : forall x, x ∈ t?.toList ++ reports -> x.version < p.version)
    (hversion : e.version = p.version) (htype : e.type = p.type)
    (hpeers : e.newpeerip = onlyPeer p.reporter) :
    Merged t? (reports ++ [p]) e := by
  constructor
  · refine ⟨p, ?_, hversion, htype⟩
    rw [← List.append_assoc]
    exact newest_append_of_lt rfl hold
  · rw [hversion, hpeers, claimants_concat_of_eq rfl, claimants_eq_nil hold]
    exact onlyPeer_lists_firstDistinct p.reporter

theorem Merged.newest_concat (h : Merged t? reports e)
    (hle : p.version ≤ e.version) :
    exists a, Foundation.newest Node.version (t?.toList ++ (reports ++ [p])) =
      some a ∧ e.version = a.version ∧ e.type = a.type := by
  rcases h.newest with ⟨a, hnewest, hversion, htype⟩
  refine ⟨a, ?_, hversion, htype⟩
  rw [← List.append_assoc]
  apply newest_append_of_le hnewest
  intro x hx
  rw [List.mem_singleton.mp hx, ← hversion]
  exact hle

theorem Merged.updateEntry (h : Merged t? reports e) :
    Merged t? (reports ++ [p]) (updateEntry p e) := by
  rcases lt_trichotomy e.version p.version with hv | hv | hv
  · rw [updateEntry_of_version_lt hv]
    refine merged_of_newer (e := updateFileVersion e p) ?_ rfl rfl rfl
    intro x hx
    exact lt_of_le_of_lt (h.le hx) hv
  · rw [updateEntry_of_version_eq hv]
    constructor
    · rw [updateFilePeers_version, updateFilePeers_type]
      exact h.newest_concat hv.ge
    · rw [updateFilePeers_version, claimants_concat_of_eq hv.symm]
      exact updateFilePeers_lists_firstDistinct h.peers
  · rw [updateEntry_of_version_gt hv]
    constructor
    · exact h.newest_concat hv.le
    · rw [claimants_concat_of_ne (ne_of_lt hv)]
      exact h.peers

theorem mergeAll_eq_none_iff :
    mergeAll t? reports = none <-> t? = none ∧ reports = [] := by
  cases reports using List.reverseRecOn with
  | nil => simp [mergeAll]
  | append_singleton reports p =>
      rw [mergeAll_concat]
      simp

theorem mergeAll_merged (ht : forall t, t? = some t ->
      exists l, Lists t.newpeerip l) (h : mergeAll t? reports = some e) :
    Merged t? reports e := by
  induction reports using List.reverseRecOn generalizing e with
  | nil =>
      change t? = some e at h
      subst h
      exact merged_nil (ht e rfl)
  | append_singleton reports p ih =>
      rw [mergeAll_concat, Option.some_inj] at h
      subst h
      cases hbefore : mergeAll t? reports with
      | some t => exact (ih hbefore).updateEntry
      | none =>
          rcases mergeAll_eq_none_iff.mp hbefore with ⟨rfl, rfl⟩
          refine merged_of_newer (e := addFile p) ?_ rfl rfl rfl
          intro x hx
          cases hx

end Merge

section Permuted

variable {t? : Option Node} {reports reports' : List Node} {e e' : Node}

theorem Merged.version_le (h : Merged t? reports e)
    (h' : Merged t? reports' e')
    (hsub : forall x, x ∈ reports -> x ∈ reports') :
    e.version ≤ e'.version := by
  rcases h.newest with ⟨a, hnewest, hversion, _⟩
  rw [hversion]
  apply h'.le
  rcases List.mem_append.mp (mem_of_newest hnewest) with ha | ha
  · exact List.mem_append_left _ ha
  · exact List.mem_append_right _ (hsub a ha)

theorem Merged.version_eq (h : Merged t? reports e)
    (h' : Merged t? reports' e') (hperm : reports.Perm reports') :
    e.version = e'.version :=
  le_antisymm (h.version_le h' fun _ => hperm.mem_iff.mp)
    (h'.version_le h fun _ => hperm.mem_iff.mpr)

theorem claimants_perm (t? : Option Node) (hperm : reports.Perm reports')
    (v : Version) :
    (claimants t? reports v).Perm (claimants t? reports' v) := by
  unfold claimants
  apply List.Perm.filter
  apply List.Perm.append_left
  apply List.Perm.map
  exact hperm.filter _

theorem Merged.ipSet_eq_claimants (h : Merged t? reports e)
    (hfew : (claimants t? reports e.version).eraseDups.length ≤
      MAX_PEER_NUM) :
    e.ipSet = {ip | ip ∈ claimants t? reports e.version} := by
  rw [h.peers.ipSet_eq]
  ext ip
  exact mem_firstDistinct_iff hfew

theorem Merged.ipSet_eq (h : Merged t? reports e)
    (h' : Merged t? reports' e') (hperm : reports.Perm reports')
    (hfew : (claimants t? reports e.version).eraseDups.length ≤
      MAX_PEER_NUM) : e.ipSet = e'.ipSet := by
  have hclaimants := claimants_perm t? hperm e.version
  have hfew' : (claimants t? reports' e'.version).eraseDups.length ≤
      MAX_PEER_NUM := by
    rw [← h.version_eq h' hperm, ← length_eraseDups_perm hclaimants]
    exact hfew
  rw [h.ipSet_eq_claimants hfew, h'.ipSet_eq_claimants hfew',
    ← h.version_eq h' hperm]
  ext ip
  exact hclaimants.mem_iff

end Permuted

/-!
## Several tables
-/

theorem runFrom_updateFiletable {ft : FileTable} {tables : List (List Node)}
    (h : ft ≠ none ∨ tables.head? ≠ some []) :
    runFrom updateFiletable ft tables =
      some (tables.flatten.foldl mergeNode ft) := by
  induction tables generalizing ft with
  | nil => rfl
  | cons table rest ih =>
      cases hupdate : updateFiletable ft table with
      | none =>
          rcases updateFiletable_eq_none_iff.mp hupdate with ⟨hft, htable⟩
          rcases h with h | h
          · exact absurd hft h
          · rw [htable] at h
            exact absurd rfl h
      | some ft' =>
          rcases updateFiletable_eq_some_iff.mp hupdate with ⟨hmerge, hft'⟩
          rw [runFrom, hupdate, List.flatten_cons, List.foldl_append, hmerge]
          exact ih (Or.inl hft')

/-- The table's first report of its newest version of the file, which is newer
than the tracker's and not older than any reported one. -/
structure Wins (f : FileName) (ft : FileTable) (tables : List (List Node))
    (table : List Node) (p : Node) : Prop where
  first : newest Node.version (reportsOf f table) = some p
  newer : forall t, entry f ft = some t -> t.version < p.version
  top : forall r, r ∈ reportsOf f tables.flatten -> r.version ≤ p.version

section Tables

variable {f : FileName} {ft : FileTable} {tables order : List (List Node)}
  {e e' : Node}

theorem reportsOf_perm (h : order.Perm tables) (f : FileName) :
    (reportsOf f order.flatten).Perm (reportsOf f tables.flatten) :=
  h.flatten.filter _

theorem type_of_wins {table : List Node} {rest : List (List Node)} {p : Node}
    (hperm : (table :: rest).Perm tables) (hwins : Wins f ft tables table p)
    (h : Merged (entry f ft) (reportsOf f (table :: rest).flatten) e) :
    e.type = p.type := by
  have hsplit : reportsOf f (table :: rest).flatten =
      reportsOf f table ++ reportsOf f rest.flatten := by
    rw [List.flatten_cons]
    exact List.filter_append table rest.flatten
  have hreports : newest Node.version (reportsOf f (table :: rest).flatten) =
      some p := by
    rw [hsplit]
    apply newest_append_of_le hwins.first
    intro x hx
    apply hwins.top x
    apply (reportsOf_perm hperm f).mem_iff.mp
    rw [hsplit]
    exact List.mem_append_right _ hx
  have hall : newest Node.version ((entry f ft).toList ++
      reportsOf f (table :: rest).flatten) = some p := by
    apply newest_append_of_lt hreports
    intro t ht
    exact hwins.newer t (Option.mem_toList.mp ht)
  rcases h.newest with ⟨a, hnewest, _, htype⟩
  rw [hall] at hnewest
  cases hnewest
  exact htype

theorem exists_wins (hperm : order.Perm tables)
    (h : Merged (entry f ft) (reportsOf f order.flatten) e) :
    (exists t, entry f ft = some t ∧ e.version = t.version ∧
        e.type = t.type) ∨
      exists table p, table ∈ tables ∧ Wins f ft tables table p ∧
        e.version = p.version ∧ e.type = p.type := by
  rcases h.newest with ⟨a, hnewest, hversion, htype⟩
  rcases newest_append_cases hnewest with hstart | ⟨hreports, hnewer⟩
  · left
    refine ⟨a, ?_, hversion, htype⟩
    exact Option.mem_toList.mp (mem_of_newest hstart)
  · right
    have hsplit : reportsOf f order.flatten =
        (order.map (reportsOf f)).flatten :=
      List.filter_flatten
    have hfirst := hreports
    rw [hsplit] at hfirst
    rcases exists_newest_of_flatten hfirst with ⟨l, hl, hnewest⟩
    rcases List.mem_map.mp hl with ⟨table, htable, rfl⟩
    refine ⟨table, a, hperm.mem_iff.mp htable, ⟨hnewest, ?_, ?_⟩, hversion,
      htype⟩
    · intro t ht
      exact hnewer t (Option.mem_toList.mpr ht)
    · intro r hr
      exact le_of_newest hreports ((reportsOf_perm hperm f).mem_iff.mpr hr)

end Tables

/-!
## Order independence
-/

/-- The entries agree on version and deletion and, where the version has few
sources, on the listed addresses. -/
inductive EntriesAgree (few : Version -> Prop) :
    Option Node -> Option Node -> Prop where
  | absent : EntriesAgree few none none
  | present {e e' : Node} : e.timestamp = e'.timestamp -> e.size = e'.size ->
      (e.type = FILE_DELETE <-> e'.type = FILE_DELETE) ->
      (few e.version -> e.ipSet = e'.ipSet) ->
      EntriesAgree few (some e) (some e')

theorem EntriesAgree.deletion {few : Version -> Prop} {e e' : Node}
    (h : EntriesAgree few (some e) (some e')) :
    e.type = FILE_DELETE <-> e'.type = FILE_DELETE := by
  cases h with
  | present _ _ hdelete _ => exact hdelete

/-- At most `MAX_PEER_NUM` addresses are listed for the version in the tracker's
table or report it. -/
def FewSources (f : FileName) (ft : FileTable) (tables : List (List Node))
    (v : Version) : Prop :=
  (claimants (entry f ft) (reportsOf f tables.flatten) v).eraseDups.length ≤
    MAX_PEER_NUM

/-- In any two orders the tables can be merged, with results that agree on
every file. -/
def OrderIndependent (ft : FileTable) (tables : List (List Node)) : Prop :=
  forall order order' : List (List Node),
    order.Perm tables -> order'.Perm tables ->
      exists ft1 ft2, runFrom updateFiletable ft order = some ft1 ∧
        runFrom updateFiletable ft order' = some ft2 ∧
        forall f, EntriesAgree (FewSources f ft tables)
          (entry f ft1) (entry f ft2)

section OrderIndependent

variable {f : FileName} {ft : FileTable}
  {tables order order' : List (List Node)}

theorem runFrom_of_perm (h : ft ≠ none ∨ [] ∉ tables)
    (hperm : order.Perm tables) :
    runFrom updateFiletable ft order =
      some (order.flatten.foldl mergeNode ft) := by
  apply runFrom_updateFiletable
  rcases h with h | h
  · exact Or.inl h
  · right
    intro hhead
    exact h (hperm.mem_iff.mp (List.mem_of_head? hhead))

theorem mergeAll_merged_of_wellFormed (h : WellFormed ft.nodes)
    {reports : List Node} {e : Node}
    (hmerge : mergeAll (entry f ft) reports = some e) :
    Merged (entry f ft) reports e :=
  mergeAll_merged (fun t ht => h.peers t (mem_of_lookup ht)) hmerge

theorem exists_merged_of_wins (h : WellFormed ft.nodes)
    {table : List Node} {rest : List (List Node)} {p : Node}
    (hperm : (table :: rest).Perm tables) (hwins : Wins f ft tables table p) :
    exists e, entry f ((table :: rest).flatten.foldl mergeNode ft) = some e ∧
      e.type = p.type := by
  rw [entry_foldl_mergeNode_eq]
  cases hmerge : mergeAll (entry f ft) (reportsOf f (table :: rest).flatten) with
  | none =>
      have hmem := mem_of_newest hwins.first
      have hnil := (mergeAll_eq_none_iff.mp hmerge).right
      rw [List.flatten_cons, reportsOf, List.filter_append,
        List.append_eq_nil_iff] at hnil
      rw [reportsOf, hnil.left] at hmem
      cases hmem
  | some e =>
      exact ⟨e, rfl, type_of_wins hperm hwins
        (mergeAll_merged_of_wellFormed h hmerge)⟩

theorem deletion_iff_of_perm {e e' : Node}
    (hfate : forall table table' p p', table ∈ tables -> table' ∈ tables ->
      Wins f ft tables table p -> Wins f ft tables table' p' ->
      (p.type = FILE_DELETE <-> p'.type = FILE_DELETE))
    (hperm : order.Perm tables) (hperm' : order'.Perm tables)
    (h : Merged (entry f ft) (reportsOf f order.flatten) e)
    (h' : Merged (entry f ft) (reportsOf f order'.flatten) e')
    (hversion : e.version = e'.version) :
    e.type = FILE_DELETE <-> e'.type = FILE_DELETE := by
  rcases exists_wins hperm h with
    ⟨t, ht, hv, htype⟩ | ⟨table, p, htable, hwins, hv, htype⟩
  · rcases exists_wins hperm' h' with
      ⟨t', ht', _, htype'⟩ | ⟨table', p', _, hwins', hv', _⟩
    · rw [ht] at ht'
      cases ht'
      rw [htype, htype']
    · have hnewer := hwins'.newer t ht
      rw [← hv, ← hv', hversion] at hnewer
      exact absurd hnewer (lt_irrefl _)
  · rcases exists_wins hperm' h' with
      ⟨t', ht', hv', _⟩ | ⟨table', p', htable', hwins', _, htype'⟩
    · have hnewer := hwins.newer t' ht'
      rw [← hv, ← hv', hversion] at hnewer
      exact absurd hnewer (lt_irrefl _)
    · rw [htype, htype']
      exact hfate table table' p p' htable htable' hwins hwins'

theorem entriesAgree_of_perm (h : WellFormed ft.nodes)
    (hfate : forall table table' p p', table ∈ tables -> table' ∈ tables ->
      Wins f ft tables table p -> Wins f ft tables table' p' ->
      (p.type = FILE_DELETE <-> p'.type = FILE_DELETE))
    (hperm : order.Perm tables) (hperm' : order'.Perm tables) :
    EntriesAgree (FewSources f ft tables)
      (mergeAll (entry f ft) (reportsOf f order.flatten))
      (mergeAll (entry f ft) (reportsOf f order'.flatten)) := by
  have hreports := reportsOf_perm hperm f
  have hreports' := hreports.trans (reportsOf_perm hperm' f).symm
  cases hmerge : mergeAll (entry f ft) (reportsOf f order.flatten) with
  | none =>
      rcases mergeAll_eq_none_iff.mp hmerge with ⟨hnone, hnil⟩
      rw [hnil] at hreports'
      have hnone' : mergeAll (entry f ft) (reportsOf f order'.flatten) =
          none :=
        mergeAll_eq_none_iff.mpr ⟨hnone, hreports'.nil_eq.symm⟩
      rw [hnone']
      exact EntriesAgree.absent
  | some e =>
      cases hmerge' : mergeAll (entry f ft) (reportsOf f order'.flatten) with
      | none =>
          rcases mergeAll_eq_none_iff.mp hmerge' with ⟨hnone, hnil⟩
          rw [hnil] at hreports'
          rw [mergeAll_eq_none_iff.mpr ⟨hnone, hreports'.eq_nil⟩] at hmerge
          cases hmerge
      | some e' =>
          have hmerged := mergeAll_merged_of_wellFormed h hmerge
          have hmerged' := mergeAll_merged_of_wellFormed h hmerge'
          have hversion := hmerged.version_eq hmerged' hreports'
          rcases Node.version_eq_iff.mp hversion with ⟨htimestamp, hsize⟩
          refine EntriesAgree.present htimestamp hsize ?_ ?_
          · exact deletion_iff_of_perm hfate hperm hperm' hmerged hmerged'
              hversion
          · intro hfew
            apply hmerged.ipSet_eq hmerged' hreports'
            rw [length_eraseDups_perm (claimants_perm _ hreports e.version)]
            exact hfew

end OrderIndependent

/-- From every table that the tracker can hold, the order of the reported tables
does not matter exactly if none of them is empty while there is no table yet,
and any two of them that win for a file agree on its deletion. -/
theorem orderIndependent_iff {ft : FileTable} {tables : List (List Node)}
    (h : Reachable tableStep unguarded none ft) :
    OrderIndependent ft tables <->
      (ft ≠ none ∨ [] ∉ tables) ∧
        forall f table table' p p', table ∈ tables -> table' ∈ tables ->
          Wins f ft tables table p -> Wins f ft tables table' p' ->
          (p.type = FILE_DELETE <-> p'.type = FILE_DELETE) := by
  have hwellFormed := wellFormed_of_reachable h
  constructor
  · intro hindependent
    have hstart : ft ≠ none ∨ [] ∉ tables := by
      rw [or_iff_not_imp_left, not_not]
      intro hft hmem
      have hperm := (List.perm_cons_erase hmem).symm
      rcases hindependent _ _ hperm hperm with ⟨ft1, _, hrun, _, _⟩
      rw [hft] at hrun
      cases hrun
    refine ⟨hstart, ?_⟩
    intro f table table' p p' htable htable' hwins hwins'
    have hperm := (List.perm_cons_erase htable).symm
    have hperm' := (List.perm_cons_erase htable').symm
    rcases hindependent _ _ hperm hperm' with ⟨ft1, ft2, hrun, hrun', hagree⟩
    rw [runFrom_of_perm hstart hperm, Option.some_inj] at hrun
    rw [runFrom_of_perm hstart hperm', Option.some_inj] at hrun'
    subst hrun
    subst hrun'
    have hentries := hagree f
    rcases exists_merged_of_wins hwellFormed hperm hwins with ⟨e, he, htype⟩
    rcases exists_merged_of_wins hwellFormed hperm' hwins' with
      ⟨e', he', htype'⟩
    rw [he, he'] at hentries
    rw [← htype, ← htype']
    exact hentries.deletion
  · intro hcondition order order' hperm hperm'
    refine ⟨_, _, runFrom_of_perm hcondition.left hperm,
      runFrom_of_perm hcondition.left hperm', ?_⟩
    intro f
    rw [entry_foldl_mergeNode_eq, entry_foldl_mergeNode_eq]
    exact entriesAgree_of_perm hwellFormed (hcondition.right f) hperm hperm'

theorem two_holders_orderIndependent :
    OrderIndependent none
      [[Sample.node Sample.ipA Sample.fileA 100 5 FILE_CREATE],
        [Sample.node Sample.ipB Sample.fileA 100 5 FILE_CREATE]] := by
  refine (orderIndependent_iff Reachable.start).mpr ⟨by decide, ?_⟩
  have hlive : forall table, table ∈
      [[Sample.node Sample.ipA Sample.fileA 100 5 FILE_CREATE],
        [Sample.node Sample.ipB Sample.fileA 100 5 FILE_CREATE]] ->
      forall p, p ∈ table -> p.type ≠ FILE_DELETE := by
    decide
  intro f table table' p p' htable htable' hwins hwins'
  have hp := hlive table htable p
    (List.mem_of_mem_filter (mem_of_newest hwins.first))
  have hp' := hlive table' htable' p'
    (List.mem_of_mem_filter (mem_of_newest hwins'.first))
  exact iff_of_false hp hp'

/-- One peer has a version of a file that the other has deleted with the same
timestamp and size; or the tracker has no table, and one of two tables is
empty. -/
theorem deletion_tie_depends_on_order :
    ¬ OrderIndependent none
        [[Sample.node Sample.ipA Sample.fileA 100 5 FILE_MODIFY],
          [Sample.node Sample.ipB Sample.fileA 100 5 FILE_DELETE]] ∧
      ¬ OrderIndependent none
        [[Sample.node Sample.ipA Sample.fileA 100 5 FILE_MODIFY], []] := by
  constructor
  · intro h
    rcases h _ _ (List.Perm.refl _) (List.Perm.swap _ _ _) with
      ⟨ft1, ft2, hrun, hrun', hagree⟩
    cases hrun
    cases hrun'
    exact absurd (hagree Sample.fileA).deletion (by decide)
  · intro h
    rcases h _ _ (List.Perm.swap _ _ _) (List.Perm.refl _) with
      ⟨ft1, _, hrun, _, _⟩
    cases hrun

end Tracker
end DartSync
