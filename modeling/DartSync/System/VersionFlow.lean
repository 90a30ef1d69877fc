import DartSync.System.Change

/-!
# Versions only go up

The tracker's version of a file never goes down, and every peer gets to compare
the versions of a file in that order: what is still in its inbox is sorted, and
the last of it is what the tracker has now.
-/

namespace DartSync
namespace System

open Foundation Peer Tracker

variable {ι : Type}

structure InOrder (v : View) : Prop where
  sorted : (v.inbox.map Node.version).Pairwise fun a b => a ≤ b
  newest : v.inbox ≠ [] -> v.inbox.getLast? = v.entry

theorem version_le_mergeReport {report? : Option Node} {e e' : Node}
    (h : mergeReport report? (some e) = some e') : e.version ≤ e'.version := by
  cases report? with
  | none =>
      cases h
      exact le_refl _
  | some p =>
      cases h
      change e.version ≤ (updateEntry p e).version
      rw [updateEntry_version]
      exact le_max_left _ _

section Order

variable {v : View}

theorem InOrder.congr {v' : View} (h : InOrder v) (hinbox : v'.inbox = v.inbox)
    (hentry : v'.entry = v.entry) : InOrder v' := by
  constructor
  · rw [hinbox]
    exact h.sorted
  · rw [hinbox, hentry]
    exact h.newest

theorem InOrder.bound (h : InOrder v) {n : Node} (hn : n ∈ v.inbox) :
    exists e, v.entry = some e ∧ n.version ≤ e.version := by
  have hne : v.inbox ≠ [] := List.ne_nil_of_mem hn
  have hlast := h.newest hne
  rw [List.getLast?_eq_some_getLast hne] at hlast
  refine ⟨v.inbox.getLast hne, hlast.symm, ?_⟩
  have hsorted := h.sorted
  rw [← List.dropLast_concat_getLast hne] at hn
  rw [← List.dropLast_concat_getLast hne, List.map_append,
    List.pairwise_append] at hsorted
  cases List.mem_append.mp hn with
  | inl hearlier =>
      exact hsorted.right.right _ (List.mem_map_of_mem hearlier) _
        List.mem_cons_self
  | inr hlatest => rw [List.mem_singleton.mp hlatest]

theorem InOrder.tail {n : Node} {rest : List Node} (h : InOrder v)
    (hinbox : v.inbox = n :: rest) {v' : View} (hrest : v'.inbox = rest)
    (hentry : v'.entry = v.entry) : InOrder v' := by
  have hsorted := h.sorted
  have hnewest := h.newest (by rw [hinbox]; exact List.cons_ne_nil n rest)
  rw [hinbox] at hsorted hnewest
  rw [List.map_cons, List.pairwise_cons] at hsorted
  constructor
  · rw [hrest]
    exact hsorted.right
  · rw [hrest, hentry, ← hnewest]
    intro hne
    exact (getLast?_of_ne_nil hne).symm

theorem InOrder.broadcast (h : InOrder v) (report? : Option Node) :
    InOrder (v.broadcast report?) := by
  cases hentry : mergeReport report? v.entry with
  | none =>
      have hnone : v.entry = none := by
        cases report? with
        | none => exact hentry
        | some p => cases hentry
      have hinbox : v.inbox = [] := by
        cases Classical.em (v.inbox = []) with
        | inl hnil => exact hnil
        | inr hne =>
            have hlast := h.newest hne
            rw [hnone, List.getLast?_eq_none_iff] at hlast
            exact hlast
      have hempty : (v.broadcast report?).inbox = [] := by
        unfold View.broadcast
        rw [hinbox, hentry]
        rfl
      constructor
      · rw [hempty]
        exact List.Pairwise.nil
      · intro hne
        exact absurd hempty hne
  | some e =>
      have hbroadcast : (v.broadcast report?).inbox = v.inbox ++ [e] := by
        unfold View.broadcast
        rw [hentry]
        rfl
      constructor
      · rw [hbroadcast, List.map_append, List.pairwise_append]
        refine ⟨h.sorted, List.pairwise_singleton _ _, ?_⟩
        intro a ha b hb
        rcases List.mem_map.mp ha with ⟨n, hn, hna⟩
        rw [← hna, List.mem_singleton.mp hb]
        rcases h.bound hn with ⟨t, ht, hle⟩
        rw [ht] at hentry
        exact le_trans hle (version_le_mergeReport hentry)
      · intro _
        rw [hbroadcast, List.getLast?_concat]
        exact hentry.symm

end Order

/-!
## Steps
-/

section Steps

variable {ip : ι -> Ip} {s s' : State ι} {p : ι} {f : FileName}

theorem perform_inbox (v : View) (effect? : Option Effect) :
    (v.perform effect?).inbox = v.inbox ∧
      (v.perform effect?).entry = v.entry := by
  cases effect? with
  | none => exact ⟨rfl, rfl⟩
  | some effect =>
      cases effect with
      | startDownload arg => exact ⟨rfl, rfl⟩
      | removeFile g =>
          unfold View.perform
          dsimp only
          cases v.file with
          | none => exact ⟨rfl, rfl⟩
          | some stat => exact ⟨rfl, rfl⟩

theorem Change.inOrder {a : Action ι} {v : View} (h : Change ip s p f a v)
    (hv : InOrder (view s p f)) : InOrder v := by
  cases h with
  | elsewhere => exact hv
  | clock now => exact hv.congr rfl rfl
  | edited hedit => exact hv.congr rfl rfl
  | opened hkind hfetching => exact hv.congr rfl rfl
  | wrote hfetching => exact hv.congr rfl rfl
  | handled hevents hname hview => exact hv.congr rfl rfl
  | resent hevents hname hsent => exact hv.congr rfl rfl
  | compared hlater hname hinbox =>
      rename_i seekNode later rest
      have hperform := perform_inbox
        { view s p f with
          inbox := rest
          node := (compareEntry (ip p) seekNode (view s p f).node).1 }
        (compareEntry (ip p) seekNode (view s p f).node).2
      exact hv.tail hinbox hperform.left hperform.right
  | finished hdownload hname hwriting => exact hv.congr rfl rfl
  | closed hdownload hname hflushed => exact hv.congr rfl rfl
  | flushed hactive => exact hv.congr rfl rfl
  | merged houtbox =>
      rename_i report? rest
      have hkept : InOrder { view s p f with outbox := rest } :=
        hv.congr rfl rfl
      exact hkept.broadcast report?
  | mergedOther hne houtbox => exact hv.broadcast _

theorem Change.entry_le {a : Action ι} {v : View} (h : Change ip s p f a v)
    {e : Node} (he : (view s p f).entry = some e) :
    exists e', v.entry = some e' ∧ e.version ≤ e'.version := by
  have hmerged : forall report? : Option Node,
      exists e', mergeReport report? (view s p f).entry = some e' ∧
        e.version ≤ e'.version := by
    intro report?
    cases hreport : mergeReport report? (view s p f).entry with
    | none =>
        rw [he] at hreport
        cases report? <;> cases hreport
    | some e' =>
        rw [he] at hreport
        exact ⟨e', rfl, version_le_mergeReport hreport⟩
  cases h with
  | merged houtbox => exact hmerged _
  | mergedOther hne houtbox => exact hmerged _
  | compared hlater hname hinbox =>
      refine ⟨e, ?_, le_refl _⟩
      rw [(perform_inbox _ _).right]
      exact he
  | elsewhere => exact ⟨e, he, le_refl _⟩
  | clock now => exact ⟨e, he, le_refl _⟩
  | edited hedit => exact ⟨e, he, le_refl _⟩
  | opened hkind hfetching => exact ⟨e, he, le_refl _⟩
  | wrote hfetching => exact ⟨e, he, le_refl _⟩
  | handled hevents hname hview => exact ⟨e, he, le_refl _⟩
  | resent hevents hname hsent => exact ⟨e, he, le_refl _⟩
  | finished hdownload hname hwriting => exact ⟨e, he, le_refl _⟩
  | closed hdownload hname hflushed => exact ⟨e, he, le_refl _⟩
  | flushed hactive => exact ⟨e, he, le_refl _⟩

end Steps

/-!
## Runs
-/

section Runs

variable [DecidableEq ι] {ip : ι -> Ip} {start s s' : State ι}
  {guard : State ι -> Action ι -> Prop}

omit [DecidableEq ι] in
theorem inOrder_of_started (h : Started start) (p : ι) (f : FileName) :
    InOrder (view start p f) := by
  rcases h.peers p with ⟨clock, files, hp⟩
  have hinbox : (view start p f).inbox = (entry f start.ft).toList := by
    have happend := inboxOf_append_nodes (f := f) h.names []
    rw [List.nil_append] at happend
    show inboxOf f (start.peers p).inbox = _
    rw [hp]
    exact happend
  constructor
  · rw [hinbox]
    cases entry f start.ft with
    | none => exact List.Pairwise.nil
    | some e => exact List.pairwise_singleton _ _
  · rw [hinbox]
    show _ -> _ = entry f start.ft
    cases entry f start.ft with
    | none =>
        intro hne
        exact absurd rfl hne
    | some e =>
        intro _
        rfl

theorem sane_of_reachable (hstarted : Started start)
    (h : Reachable (step ip) guard start s) : Sane ip s := by
  apply h.invariant (sane_of_started hstarted)
  intro s a s' hs _ hstep
  exact sane_step hs hstep

theorem inOrder_of_reachable (hstarted : Started start)
    (h : Reachable (step ip) guard start s) (p : ι) (f : FileName) :
    InOrder (view s p f) := by
  apply reachable_invariant (P := fun s => InOrder (view s p f)) hstarted
    (inOrder_of_started hstarted p f) _ h
  intro s a s' hs hv _ hstep
  exact (step_change hs hstep p f).inOrder hv

theorem entry_le_of_runFrom (p : ι) {f : FileName} {actions : List (Action ι)}
    (hs : Sane ip s) (hrun : runFrom (step ip) s actions = some s') {e : Node}
    (he : entry f s.ft = some e) :
    exists e', entry f s'.ft = some e' ∧ e.version ≤ e'.version := by
  induction actions generalizing s e with
  | nil =>
      cases hrun
      exact ⟨e, he, le_refl _⟩
  | cons a rest ih =>
      rcases runFrom_cons_eq_some_iff.mp hrun with ⟨t, ht, hrest⟩
      rcases (step_change hs ht p f).entry_le he with ⟨e', he', hle⟩
      rcases ih (sane_step hs ht) hrest he' with ⟨e'', he'', hle'⟩
      exact ⟨e'', he'', le_trans hle hle'⟩

/-- Along every run the tracker's version of a file goes up, and in every state
each peer has the versions still to be compared in that order, none newer than
the tracker's, and the last of them is the tracker's entry. -/
theorem versions_only_go_up (hstarted : Started start)
    (h : Reachable (step ip) unguarded start s) (p : ι) (f : FileName) :
    let coming := (s.peers p).inbox.filter fun n => n.name = f
    (coming.map Node.version).Pairwise (fun a b => a ≤ b) ∧
      (forall n, n ∈ coming ->
        exists e, entry f s.ft = some e ∧ n.version ≤ e.version) ∧
      (coming ≠ [] -> coming.getLast? = entry f s.ft) ∧
      forall actions s', runFrom (step ip) s actions = some s' ->
        forall e, entry f s.ft = some e ->
          exists e', entry f s'.ft = some e' ∧ e.version ≤ e'.version := by
  have horder := inOrder_of_reachable hstarted h p f
  refine ⟨horder.sorted, fun n hn => horder.bound hn, horder.newest, ?_⟩
  intro actions s' hrun e he
  exact entry_le_of_runFrom p (sane_of_reachable hstarted h) hrun he

end Runs

theorem versions_only_go_up_report :
    exists s : State Bool,
      ((s.peers false).inbox.filter fun n => n.name = Sample.fileA) ≠ [] ∧
      ((s.peers false).inbox.filter
        fun n => n.name = Sample.fileA).getLast? =
          entry Sample.fileA s.ft := by
  have hrun : runFrom (step Sample.ips) Sample.twoPeers
      [Action.peer true (LocalAction.userCreate Sample.fileA 5),
        Action.peer true LocalAction.notify, Action.merge true] = some _ := rfl
  have horder := versions_only_go_up Sample.twoPeers_started
    (reachable_of_runFrom hrun) false Sample.fileA
  refine ⟨_, ?_, horder.right.right.left ?_⟩
  · decide
  · decide

end System
end DartSync
