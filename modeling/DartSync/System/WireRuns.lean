import DartSync.System.WireRefinement

/-!
# Every run of the system of tables takes place over the connections

The other direction of the refinement.  Whatever is on the connections, the
packets that are still to be sent can be sent, the handshake thread can handle
all of them, and the broadcasts can be read; so each step of the system of
tables is some steps over the connections, as long as the tables are small
enough to be counted.
-/

namespace DartSync
namespace System

open Foundation Peer Tracker

theorem localStep_carry_none {myip : Ip} {x : PeerState} {a : LocalAction}
    (h : localStep myip x a = none)
    (hinbox : a = LocalAction.compare -> x.inbox ≠ [])
    (sent : List (List Node)) (coming : List Node) :
    localStep myip (x.carry sent coming) a = none := by
  cases a with
  | setClock now => cases h
  | userCreate f size =>
      dsimp only [localStep] at h ⊢
      cases hfile : x.files f with
      | none =>
          rw [hfile] at h
          cases h
      | some stat => rw [show (x.carry sent coming).files f = _ from hfile]
  | userWrite f size =>
      dsimp only [localStep] at h ⊢
      cases hfile : x.files f with
      | none => rw [show (x.carry sent coming).files f = _ from hfile]
      | some stat =>
          rw [hfile] at h
          cases h
  | userDelete f =>
      dsimp only [localStep] at h ⊢
      cases hfile : x.files f with
      | none => rw [show (x.carry sent coming).files f = _ from hfile]
      | some stat =>
          rw [hfile] at h
          cases h
  | notify =>
      dsimp only [localStep, PeerState.notify] at h ⊢
      cases hevents : x.events with
      | nil => rw [show (x.carry sent coming).events = _ from hevents]
      | cons event rest =>
          rw [hevents] at h
          rw [show (x.carry sent coming).events = _ from hevents]
          dsimp only at h ⊢
          split at h
          · next hoverruns => rw [if_pos hoverruns]
          · cases h
  | compare =>
      dsimp only [localStep, PeerState.compare] at h
      cases hentries : x.inbox with
      | nil => exact absurd hentries (hinbox rfl)
      | cons seekNode rest =>
          rw [hentries] at h
          cases h
  | openFile index =>
      dsimp only [localStep, PeerState.openFile, PeerState.carry] at h ⊢
      split at h
      · cases h
      · rfl
  | writeFile index size =>
      dsimp only [localStep, PeerState.writeFile, PeerState.carry] at h ⊢
      split at h
      · split at h
        · cases h
        · cases h
      · rfl
  | setNodeType index =>
      dsimp only [localStep, PeerState.finish, PeerState.carry] at h ⊢
      split at h
      · cases h
      · rfl
  | closeFile index flushed =>
      dsimp only [localStep, PeerState.closeFile, PeerState.carry] at h ⊢
      split at h
      · split at h
        · cases h
        · cases h
      · rfl

theorem localStep_of_carry {myip : Ip} {x y : PeerState} {a : LocalAction}
    {sent : List (List Node)} {coming : List Node}
    (h : localStep myip (x.carry sent coming) a = some y)
    (hinbox : a = LocalAction.compare -> x.inbox ≠ []) :
    exists own, localStep myip x a = some own ∧ y = own.carry sent coming := by
  cases hown : localStep myip x a with
  | none =>
      rw [localStep_carry_none hown hinbox] at h
      cases h
  | some own =>
      rw [localStep_carry hown] at h
      cases h
      exact ⟨own, rfl, rfl⟩

structure SmallTables {ι : Type} (t : State ι) : Prop where
  ft : t.ft.nodes.length < 2 ^ 31
  outbox : forall p table, table ∈ (t.peers p).outbox -> table.length < 2 ^ 31

/-!
## Runs over the connections
-/

section Runs

variable {ι : Type} [DecidableEq ι] {myip : ι -> CString IP_LEN}
  {s s' : WireState ι} {t t' : State ι} {p : ι}

def RunsTo (myip : ι -> CString IP_LEN) (s : WireState ι) (t : State ι)
    (P : WireState ι -> Prop) : Prop :=
  exists actions s', (forall a, a ∈ actions -> WireAction.Counted a) ∧
    runFrom (wireStep myip) s actions = some s' ∧ Refines myip s' t ∧ P s'

theorem RunsTo.stay {P : WireState ι -> Prop} (h : Refines myip s t)
    (hP : P s) : RunsTo myip s t P :=
  ⟨[], s, fun _ ha => absurd ha List.not_mem_nil, rfl, h, hP⟩

theorem RunsTo.cons {P : WireState ι -> Prop} {a : WireAction ι}
    (hstep : wireStep myip s a = some s') (hcounted : a.Counted)
    (h : RunsTo myip s' t P) : RunsTo myip s t P := by
  rcases h with ⟨actions, s'', hall, hrun, hrefines, hP⟩
  refine ⟨a :: actions, s'', List.forall_mem_cons.mpr ⟨hcounted, hall⟩, ?_,
    hrefines, hP⟩
  exact runFrom_cons_eq_some_iff.mpr ⟨s', hstep, hrun⟩

theorem RunsTo.trans {P Q : WireState ι -> Prop} (h : RunsTo myip s t P)
    (hnext : forall s', Refines myip s' t -> P s' -> RunsTo myip s' t' Q) :
    RunsTo myip s t' Q := by
  rcases h with ⟨actions, s', hall, hrun, hrefines, hP⟩
  rcases hnext s' hrefines hP with ⟨later, s'', hall', hrun', hrefines', hQ⟩
  refine ⟨actions ++ later, s'', ?_, ?_, hrefines', hQ⟩
  · intro a ha
    cases List.mem_append.mp ha with
    | inl hbefore => exact hall a hbefore
    | inr hafter => exact hall' a hafter
  · exact runFrom_append_eq_some_iff.mpr ⟨s', hrun, hrun'⟩

theorem Refines.flush (h : Refines myip s t) (p : ι) :
    RunsTo myip s t fun s' => (s'.ends p).unsent = [] := by
  generalize hunsent : (s.ends p).unsent = unsent
  induction unsent generalizing s with
  | nil => exact RunsTo.stay h hunsent
  | cons pkt rest ih =>
      rcases h.peers p with ⟨w, hw, hpeer⟩
      have hsend : (s.ends p).send = some { s.ends p with
          unsent := rest, up := (s.ends p).up ++ peerCodec.encode pkt } := by
        unfold Endpoint.send
        rw [hunsent]
      rcases hw.send_step hsend with ⟨w', hw', hsame⟩
      have hstep : wireStep myip s (WireAction.send p) = some (s.set p _) :=
        congrArg (Option.map _) hsend
      apply RunsTo.cons hstep trivial
      apply ih (h.set_same hw' (hsame.trans hpeer.symm))
      exact congrArg Endpoint.unsent (Function.update_self p _ s.ends)

theorem Refines.fetchAll (h : Refines myip s t)
    (hinbox : (t.peers p).inbox ≠ []) :
    RunsTo myip s t fun s' => (s'.ends p).own.inbox ≠ [] := by
  rcases h.peers p with ⟨w, hw, hpeer⟩
  generalize hdown : w.down = down
  induction down generalizing s w with
  | nil =>
      have hcoming := hw.coming
      rw [hdown] at hcoming
      cases hnone : w.coming with
      | cons nodes coming =>
          rw [hnone] at hcoming
          cases hcoming
      | nil =>
          apply RunsTo.stay h
          intro hempty
          apply hinbox
          rw [hpeer]
          unfold Flight.peer PeerState.carry
          dsimp only
          rw [hempty, hnone]
          rfl
  | cons ft later ih =>
      cases Classical.em ((s.ends p).own.inbox = []) with
      | inr hsome => exact RunsTo.stay h hsome
      | inl hempty =>
          have hcoming := hw.coming
          cases hsome : w.coming with
          | nil =>
              rw [hdown, hsome] at hcoming
              cases hcoming
          | cons nodes coming =>
              have hfetch := hw.fetch_eq hempty hdown hsome
              rcases hw.of_fetch hempty hdown hsome with ⟨hw', hsame⟩
              have hstep : wireStep myip s (WireAction.fetch p) =
                  some (s.set p _) :=
                congrArg (Option.map _) hfetch
              apply RunsTo.cons hstep trivial
              apply ih (h.set_same hw' (hsame.trans hpeer.symm))
                { w with down := later, coming := coming }
              · rw [show (s.set p _).ends p = _ from
                  Function.update_self p _ s.ends]
                exact hw'
              · rw [show (s.set p _).ends p = _ from
                  Function.update_self p _ s.ends, hsame, hpeer]
              · rfl

theorem Refines.handleAll (h : Refines myip s t)
    (hunsent : (s.ends p).unsent = []) (hmerge : mergeStep t p = some t')
    (hsmall : t'.ft.nodes.length < 2 ^ 31) :
    RunsTo myip s t' fun _ => True := by
  rcases h.peers p with ⟨w, hw, hpeer⟩
  have hwaiting : w.waiting = [] := by
    have hread := hw.waiting
    rw [hunsent, List.map_nil, eq_comm, List.map_eq_nil_iff] at hread
    exact hread
  generalize hup : w.up = pkts
  induction pkts generalizing s w with
  | nil =>
      -- no packet is left, so no table is on its way
      have hsent := hw.sent
      rw [hup, List.map_nil, eq_comm, List.map_eq_nil_iff] at hsent
      have hcarries := hw.tables
      rw [hsent, hwaiting] at hcarries
      have houtbox := hw.outbox
      rw [← hpeer, hcarries.eq_nil, List.map_nil] at houtbox
      unfold mergeStep at hmerge
      rw [houtbox] at hmerge
      cases hmerge
  | cons pkt up ih =>
      have hreceived : trackerReceiver (s.ends p).up =
          (some pkt, up.flatMap peerCodec.encode) := by
        rw [hw.up, hup, List.flatMap_cons, trackerReceiver_encode]
      have hread := hw.sent
      rw [hup, List.map_cons] at hread
      cases hsent : w.sent with
      | nil =>
          rw [hsent] at hread
          cases hread
      | cons recv_pkt later =>
          rw [hsent, List.map_cons, List.cons.injEq] at hread
          have hhandled := hw.handle hup hsent s.ft
          unfold arrivalOf at hhandled
          generalize hresult : Handshake.receive _ _ = result at hhandled
          cases hhandled with
          | stored hw' hup' hwaiting' hsame =>
              rename_i handler w'
              have hstep : wireStep myip s (WireAction.handle p none) =
                  some (s.set p ((s.ends p).advance up handler)) := by
                change handleStep s p none = _
                unfold handleStep
                rw [hreceived]
                dsimp only
                rw [hread.left]
                dsimp only
                rw [hresult]
                dsimp only
                rw [if_neg (hw.not_register hsent)]
                rfl
              have hend : (s.set p ((s.ends p).advance up handler)).ends p =
                  (s.ends p).advance up handler :=
                Function.update_self p _ s.ends
              apply RunsTo.cons hstep (by decide : (0 : Nat) < 2 ^ 31)
              apply ih (h.set_same hw' (hsame.trans hpeer.symm)) _ w'
              · rw [hend]
                exact hw'
              · rw [hend, hsame]
                exact hpeer
              · exact hwaiting'.trans hwaiting
              · exact hup'
              · rw [hend]
                exact hunsent
          | merged hP hmerged hw' hpeer' =>
              rename_i P rest handler w'
              rw [h.mergeStep_eq hw hpeer hP, hmerged] at hmerge
              cases hmerge
              have hcount : (someTable handler.ft).Countable := by
                unfold SentTable.Countable
                rw [nodes_someTable, length_someMemory]
                exact hsmall
              have hheld := holdsTable_someTable handler.ft
              have hstep : wireStep myip s
                  (WireAction.handle p (someTable handler.ft)) =
                  some
                    { ft := handler.ft
                      ends := fun q =>
                        ((s.set p ((s.ends p).advance up handler)).ends
                          q).receive (sentTables [someTable handler.ft]) } := by
                change handleStep s p _ = _
                unfold handleStep
                rw [hreceived]
                dsimp only
                rw [hread.left]
                dsimp only
                rw [hresult]
                dsimp only [Tracker.merged]
                rw [if_pos hheld]
                rfl
              rcases h.merge hw hpeer hP hmerged hw' hpeer' hcount hheld with
                ⟨t'', ht'', hrefines⟩
              rw [h.mergeStep_eq hw hpeer hP, hmerged] at ht''
              cases ht''
              exact RunsTo.cons hstep hcount (RunsTo.stay hrefines trivial)
          | fault hP hmerged =>
              rw [h.mergeStep_eq hw hpeer hP, hmerged] at hmerge
              cases hmerge

theorem Refines.peerRun {a : LocalAction}
    (h : Refines myip s t)
    (hstep : System.step (ipOf myip) t (Action.peer p a) = some t')
    (hsmall : SmallTables t')
    (hfree : a = LocalAction.notify -> (s.ends p).unsent = [])
    (hinbox : a = LocalAction.compare -> (s.ends p).own.inbox ≠ []) :
    RunsTo myip s t' fun _ => True := by
  rcases h.peers p with ⟨w, hw, hpeer⟩
  rcases Option.map_eq_some_iff.mp hstep with ⟨y, hy, ht'⟩
  rw [hpeer] at hy
  rcases localStep_of_carry hy hinbox with ⟨own, hown, hcarry⟩
  have hends : exists memory e, (s.ends p).peer (myip p) a memory = some e ∧
      memory.length < 2 ^ 31 := by
    cases houtbox : own.outbox with
    | nil =>
        exact ⟨[], _, Endpoint.peer_of_quiet hfree hown houtbox, by decide⟩
    | cons table later =>
        refine ⟨someMemory table, _, Endpoint.peer_of_table hfree hown houtbox
          (holdsNodes_someMemory table), ?_⟩
        rw [length_someMemory]
        apply hsmall.outbox p
        rw [← ht']
        dsimp only
        rw [Function.update_self, hcarry]
        unfold PeerState.carry
        dsimp only
        rw [houtbox]
        exact List.mem_append_right _ List.mem_cons_self
  rcases hends with ⟨memory, e, he, hcounted⟩
  rcases hw.peer_step hcounted he with ⟨w', hw', hlocal⟩
  have hwire : wireStep myip s (WireAction.peer p a memory) =
      some (s.set p e) := congrArg (Option.map _) he
  apply RunsTo.cons hwire hcounted
  apply RunsTo.stay _ trivial
  have hsame : y = w'.peer e := by
    unfold ipOf Flight.peer at hy
    unfold Flight.peer at hlocal
    rw [hlocal] at hy
    exact (Option.some.inj hy).symm
  rw [← ht', hsame]
  exact h.set hw'

theorem Refines.exists_run {a : Action ι} (h : Refines myip s t)
    (hstep : System.step (ipOf myip) t a = some t') (hsmall : SmallTables t') :
    RunsTo myip s t' fun _ => True := by
  cases a with
  | merge p =>
      apply (h.flush p).trans
      intro s' h' hunsent
      exact h'.handleAll hunsent hstep hsmall.ft
  | peer p a =>
      cases Classical.em (a = LocalAction.notify) with
      | inl hnotify =>
          apply (h.flush p).trans
          intro s' h' hunsent
          apply h'.peerRun hstep hsmall
          · intro _
            exact hunsent
          · intro hcompare
            rw [hnotify] at hcompare
            cases hcompare
      | inr hother =>
          cases Classical.em (a = LocalAction.compare) with
          | inr hlocal =>
              apply h.peerRun hstep hsmall
              · intro hnotify
                exact absurd hnotify hother
              · intro hcompare
                exact absurd hcompare hlocal
          | inl hcompare =>
              have hinbox : (t.peers p).inbox ≠ [] := by
                intro hempty
                rcases Option.map_eq_some_iff.mp hstep with ⟨y, hy, _⟩
                rw [hcompare] at hy
                dsimp only [localStep, PeerState.compare] at hy
                rw [hempty] at hy
                cases hy
              apply (h.fetchAll hinbox).trans
              intro s' h' hsome
              apply h'.peerRun hstep hsmall
              · intro hnotify
                exact absurd hnotify hother
              · intro _
                exact hsome

end Runs

def small {ι : Type} [DecidableEq ι] (ip : ι -> Ip) :
    State ι -> Action ι -> Prop :=
  fun t a => forall t', step ip t a = some t' -> SmallTables t'

theorem reachable_of_counted {ι : Type} [DecidableEq ι]
    {myip : ι -> CString IP_LEN} {start s s' : WireState ι}
    {actions : List (WireAction ι)}
    (h : Reachable (wireStep myip) counted start s)
    (hall : forall a, a ∈ actions -> a.Counted)
    (hrun : runFrom (wireStep myip) s actions = some s') :
    Reachable (wireStep myip) counted start s' := by
  induction actions generalizing s with
  | nil =>
      cases hrun
      exact h
  | cons a rest ih =>
      rw [List.forall_mem_cons] at hall
      rcases runFrom_cons_eq_some_iff.mp hrun with ⟨t, ht, hrest⟩
      exact ih (h.step hall.left ht) hall.right hrest

/-- Every state of the system of tables is reached over the connections, from
every state of the connections that stands for its start; and whatever is on the
connections by then, they can take each further step of that system. -/
theorem reachable_over_wire {ι : Type} [DecidableEq ι]
    {myip : ι -> CString IP_LEN} {start : WireState ι} {t : State ι}
    (hstart : Connected start)
    (h : Reachable (step (ipOf myip)) (small (ipOf myip)) start.tables t) :
    (exists s, Reachable (wireStep myip) counted start s ∧
      Refines myip s t) ∧
    forall s, Refines myip s t ->
      forall a t', step (ipOf myip) t a = some t' -> SmallTables t' ->
        exists actions s', (forall a, a ∈ actions -> WireAction.Counted a) ∧
          runFrom (wireStep myip) s actions = some s' ∧
          Refines myip s' t' := by
  constructor
  · induction h with
    | start => exact ⟨start, Reachable.start, hstart.refines myip⟩
    | step _ hguard hstep ih =>
        rcases ih with ⟨s, hs, hrefines⟩
        rcases hrefines.exists_run hstep (hguard _ hstep) with
          ⟨actions, s', hall, hrun, hrefines', _⟩
        exact ⟨s', reachable_of_counted hs hall hrun, hrefines'⟩
  · intro s hrefines a t' hstep hsmall
    rcases hrefines.exists_run hstep hsmall with
      ⟨actions, s', hall, hrun, hrefines', _⟩
    exact ⟨actions, s', hall, hrun, hrefines'⟩

theorem reachable_over_wire_merged :
    exists t : State Unit, t.ft.nodes.length = 1 ∧
      exists s, Reachable (wireStep Sample.oneIp) counted
          Sample.oneConnected s ∧ Refines Sample.oneIp s t := by
  have hsmall : forall {t t' : State Unit} {a : Action Unit},
      step (ipOf Sample.oneIp) t a = some t' -> t'.ft.nodes.length < 2 ^ 31 ->
        (forall table, table ∈ (t'.peers ()).outbox ->
          table.length < 2 ^ 31) ->
        small (ipOf Sample.oneIp) t a := by
    intro t t' a ht' hft houtbox t'' ht''
    rw [ht'] at ht''
    cases ht''
    exact ⟨hft, fun _ => houtbox⟩
  have hcreate := @Reachable.step _ _ (step (ipOf Sample.oneIp))
    (small (ipOf Sample.oneIp)) Sample.oneConnected.tables _ _
    (Action.peer () (LocalAction.userCreate Sample.fileA 5)) Reachable.start
    (hsmall rfl (by decide) (by decide)) rfl
  have hnotify := @Reachable.step _ _ (step (ipOf Sample.oneIp))
    (small (ipOf Sample.oneIp)) Sample.oneConnected.tables _ _
    (Action.peer () LocalAction.notify) hcreate
    (hsmall rfl (by decide) (by decide)) rfl
  have hmerge := @Reachable.step _ _ (step (ipOf Sample.oneIp))
    (small (ipOf Sample.oneIp)) Sample.oneConnected.tables _ _
    (Action.merge ()) hnotify (hsmall rfl (by decide) (by decide)) rfl
  exact ⟨_, rfl,
    (reachable_over_wire Sample.oneConnected_connected hmerge).left⟩

end System
end DartSync
