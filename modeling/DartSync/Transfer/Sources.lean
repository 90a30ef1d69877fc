import DartSync.Tracker.SourceList
import DartSync.Transfer.Plan

/-!
# The sources of a download

From the list of addresses in a tracker entry, through the scan in
`compareNode`, to the pieces that `ptp_download` requests.
-/

namespace DartSync
namespace Transfer

open Foundation Peer

/-- The loop of `compareNode` over `newpeerip` from an index on, with `left`
slots to go: the indices it reads, and the addresses it fills in.  `strlen`
comes before the comparison with `MAX_PEER_NUM`. -/
def scanPeers (newpeerip : Vector Ip MAX_PEER_NUM) :
    Nat -> Nat -> List Nat × List Ip
  | 0, index => ([index], [])
  | left + 1, index =>
      let slot := peerSlot newpeerip index
      if slot.strlen = 0 then ([index], [])
      else
        let rest := scanPeers newpeerip left (index + 1)
        (index :: rest.1, slot :: rest.2)

theorem scanPeers_eq (newpeerip : Vector Ip MAX_PEER_NUM) {left index : Nat}
    (h : left + index = MAX_PEER_NUM) :
    scanPeers newpeerip left index =
      (List.range' index (((newpeerip.toList.drop index).takeWhile
          (fun a => a ≠ CString.empty)).length + 1),
        (newpeerip.toList.drop index).takeWhile
          (fun a => a ≠ CString.empty)) := by
  induction left generalizing index with
  | zero =>
      have hdrop : newpeerip.toList.drop index = [] := by
        apply List.drop_eq_nil_of_le
        rw [Vector.length_toList]
        omega
      rw [hdrop]
      rfl
  | succ left ih =>
      have hlt : index < newpeerip.toList.length := by
        rw [Vector.length_toList]
        omega
      have hslot : peerSlot newpeerip index = newpeerip.toList[index] := by
        rw [peerSlot, slotAt, List.getD_eq_getElem?_getD, List.getElem?_eq_getElem hlt,
          Option.getD_some]
      rw [scanPeers, hslot, ih (by omega), List.drop_eq_getElem_cons hlt]
      cases Classical.em (newpeerip.toList[index] = CString.empty) with
      | inl hempty =>
          rw [if_pos, List.takeWhile_cons_of_neg]
          · rfl
          · simp [hempty]
          · exact (CString.strlen_eq_zero_iff _).mpr hempty
      | inr hne =>
          rw [if_neg, List.takeWhile_cons_of_pos]
          · rfl
          · exact decide_eq_true hne
          · rw [CString.strlen_eq_zero_iff]
            exact hne

theorem scanPeers_all (n : Node) :
    scanPeers n.newpeerip MAX_PEER_NUM 0 =
      (List.range (n.peers.length + 1), n.peers) := by
  rw [scanPeers_eq n.newpeerip rfl, List.drop_zero, List.range_eq_range']
  rfl

/-!
## What is requested
-/

def Plan.Asks (p : Plan) (temps : Temps) : Prop :=
  exists i : Nat, i < p.count ∧ p.needs i (curLength (temps i)) = true

theorem not_asks_of_count {p : Plan} {temps : Temps} (h : p.count = 0) :
    ¬ p.Asks temps := by
  intro hasks
  rcases hasks with ⟨i, hi, _⟩
  rw [h] at hi
  exact Nat.not_lt_zero i hi

theorem asks_of_clean {sources : Nat} {fileSize : Int} (h : 1 ≤ sources)
    (hsources : sources < 2 ^ 31) (hpos : 0 < fileSize)
    (hsize : fileSize < 2 ^ 64)
    (htwo : ¬ (sources = 2 ∧ fileSize = 2 ^ 64 - 1)) :
    (plan sources fileSize).Asks fun _ => none := by
  simp only [Plan.Asks, curLength, needs_iff, Plan.count]
  rcases sources_cases h with rfl | rfl | hmany
  · exact ⟨0, Nat.one_pos, Or.inr (Or.inl ⟨rfl, hpos, rfl⟩)⟩
  · refine ⟨0, Nat.two_pos, Or.inl ⟨Int.zero_lt_one, ?_⟩⟩
    change ulong 0 < ulong (fileSize + 1) / 2
    rw [ulong_of_small (by omega) (by omega),
      ulong_of_small (by omega) (by omega)]
    omega
  · rw [plan_many (by omega) (by omega)]
    dsimp only
    have hdivision := Int.mul_ediv_add_emod fileSize (sources - 1 : Int)
    have hnonneg := Int.emod_nonneg fileSize
      (show (sources - 1 : Int) ≠ 0 by omega)
    cases Int.lt_or_le 0 (fileSize % (sources - 1 : Int)) with
    | inl hremainder =>
        rw [if_pos hremainder]
        refine ⟨sources - 1, by omega, Or.inr (Or.inr ⟨?_, ?_⟩)⟩
        · omega
        · exact ⟨hremainder, hremainder⟩
    | inr hexact =>
        rw [if_neg (by omega)]
        refine ⟨0, by omega, Or.inl ⟨by omega, ?_⟩⟩
        change 0 < fileSize / (sources - 1 : Int)
        apply Int.ediv_pos_of_pos_of_dvd hpos (by omega)
        apply Int.dvd_of_emod_eq_zero
        omega

theorem not_asks_largest (temps : Temps) :
    ¬ (plan 2 (2 ^ 64 - 1)).Asks temps := by
  have hplan : plan 2 (2 ^ 64 - 1) =
      { peerNum := 2, pieceSize := 0, remainderLen := -1 } := by
    decide
  intro hasks
  rcases hasks with ⟨i, _, hneeds⟩
  rw [needs_iff, hplan] at hneeds
  unfold ulong at hneeds
  dsimp only at hneeds
  omega

/-!
## Sources of a broadcast entry
-/

/-- The download has the listed sources, was filled in without reading beyond
the array, and asks for some piece, with these files in the sync folder and these
temporary files. -/
structure Sourced (folder : List (List UInt8)) (temps : Temps) (entry : Node)
    (arg : DownloadArg) : Prop where
  count : 1 ≤ arg.peerNum ∧ arg.peerNum ≤ MAX_PEER_NUM
  sources : arg.addrList.length = arg.peerNum ∧ arg.addrList.Nodup ∧
    forall ip, ip ∈ arg.addrList <-> ip ∈ entry.ipSet
  scan : forall index,
    index ∈ (scanPeers entry.newpeerip MAX_PEER_NUM 0).1 ->
      index < MAX_PEER_NUM
  pieces : (plan (sourceCount folder arg) arg.size.toNat).Asks temps

section Entry

variable {folder : List (List UInt8)} {temps : Temps} {entry : Node}

theorem sourced_iff_of_lists {l : List Ip}
    (hl : Tracker.Lists entry.newpeerip l) :
    Sourced folder temps entry (downloadArg entry.name entry) <->
      l ≠ [] ∧ l.length ≠ MAX_PEER_NUM ∧
        (forall baseName, baseName ∈ folder ->
          listed entry.name baseName = false) ∧
        (plan l.length entry.size.toNat).Asks temps := by
  have hpeers : entry.peers = l := hl.dense.occupied_eq
  have hmax := hl.dense.length_le
  have hcount : (downloadArg entry.name entry).peerNum = l.length :=
    congrArg List.length hpeers
  have haddr : (downloadArg entry.name entry).addrList = l := hpeers
  have hname : (downloadArg entry.name entry).filename = entry.name := rfl
  have hsize : (downloadArg entry.name entry).size = entry.size := rfl
  generalize downloadArg entry.name entry = arg at hcount haddr hname hsize ⊢
  constructor
  · intro hsourced
    have hunlisted : forall baseName, baseName ∈ folder ->
        listed entry.name baseName = false := by
      intro baseName hmem
      rw [Bool.eq_false_iff]
      intro hlisted
      rw [← hname] at hlisted
      have hpieces := hsourced.pieces
      rw [sourceCount_of_listed hmem hlisted] at hpieces
      exact not_asks_of_count (count_plan_zero _) hpieces
    refine ⟨?_, ?_, hunlisted, ?_⟩
    · intro hnil
      have hone := hsourced.count.left
      rw [hcount, hnil] at hone
      exact absurd hone (by decide)
    · intro hfull
      have hread := hsourced.scan MAX_PEER_NUM (by
        rw [scanPeers_all, hpeers, hfull]
        exact List.mem_range.mpr (Nat.lt_succ_self _))
      exact Nat.lt_irrefl _ hread
    · have hpieces := hsourced.pieces
      rw [sourceCount_of_not_listed (hname ▸ hunlisted), hcount, hsize]
        at hpieces
      exact hpieces
  · intro hcondition
    rcases hcondition with ⟨hne, hroom, hunlisted, hasks⟩
    have hone : 1 ≤ l.length := List.length_pos_iff.mpr hne
    constructor
    · rw [hcount]
      exact ⟨hone, hmax⟩
    · rw [hcount, haddr]
      refine ⟨rfl, hl.nodup, ?_⟩
      intro ip
      rw [hl.ipSet_eq]
      rfl
    · intro index hindex
      rw [scanPeers_all, hpeers, List.mem_range] at hindex
      omega
    · rw [sourceCount_of_not_listed (hname ▸ hunlisted), hcount, hsize]
      exact hasks

theorem asks_clean_iff (h : 1 ≤ entry.peers.length)
    (hpos : 0 < entry.size.toNat) :
    ((plan entry.peers.length entry.size.toNat).Asks fun _ => none) <->
      ¬ (entry.peers.length = 2 ∧ entry.size.toNat = 2 ^ 64 - 1) := by
  have hlt := entry.size.toNat_lt
  have hpeers := length_peers_le entry
  simp only [MAX_PEER_NUM] at hpeers
  constructor
  · intro hasks htwo
    rw [htwo.left, htwo.right] at hasks
    exact not_asks_largest _ hasks
  · intro htwo
    apply asks_of_clean h (by omega) (by omega) (by omega)
    omega

end Entry

def Sample.peerIp (i : Fin MAX_PEER_NUM) : Ip where
  bytes := [49 + UInt8.ofNat i]
  noNul := by
    revert i
    decide
  fits := by
    change 1 < IP_LEN + 1
    decide

def Sample.fiveReports : List Tracker.TableAction :=
  (List.finRange MAX_PEER_NUM).map fun i =>
    Tracker.TableAction.update
      [Sample.node (Sample.peerIp i) Sample.fileA 100 5 FILE_CREATE]

end Transfer
end DartSync
