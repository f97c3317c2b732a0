import Tomato64.Stats.Cstats

/-!
# The number of hosts

The count of the nodes is the size of the tree in every run.  At the limit
`Node_new` returns none, and the insertion compares it with the nodes that are
there: such a run has no next state.
-/

namespace Tomato64.Cstats

open AvlTree List Run Scan Shared Stats Text

instance : Std.TransCmp nodeCompare where
  eq_swap {left right} :=
    @Std.OrientedCmp.eq_swap _ strcmp _ left.ipaddr right.ipaddr
  isLE_trans {left middle right} :=
    @Std.TransCmp.isLE_trans _ strcmp _ left.ipaddr middle.ipaddr right.ipaddr

theorem nodeCompare_eq_iff {left right : Node} :
    nodeCompare left right = .eq ↔ left.ipaddr = right.ipaddr := by
  rw [nodeCompare, Std.LawfulEqCmp.compare_eq_iff_eq]

theorem find_congr {left right : Node} (hsame : left.ipaddr = right.ipaddr)
    (tree : Avl Node) :
    find nodeCompare left tree = find nodeCompare right tree := by
  induction tree with
  | nil => rfl
  | node first other second height ihfirst ihsecond =>
    have hcompare : nodeCompare left other = nodeCompare right other := by
      rw [nodeCompare, nodeCompare, hsame]
    rw [find, find, hcompare, ihfirst, ihsecond]

/-- The node found for an address has this address. -/
theorem find_ipaddr {node found : Node} {tree : Avl Node}
    (hfind : find nodeCompare node tree = some found) :
    found ∈ tree.toList ∧ found.ipaddr = node.ipaddr := by
  obtain ⟨hmem, hcompare⟩ := find_some nodeCompare node hfind
  exact ⟨hmem, (nodeCompare_eq_iff.mp hcompare).symm⟩

section
variable {ipaddr : Bytes} {state next : State}

theorem orFault_eq_ok {α : Type} {fault : Fault} {value : Option α} {result : α}
    (hvalue : value = some result) : orFault fault value = .ok result := by
  rw [hvalue, orFault]

variable (ipaddr : Bytes)

theorem insertNew_below (hgood : Good state.tree)
    (hcount : state.nodeCount < maxNodes) :
    ∃ tree, insertNew ipaddr state = .ok ⟨tree, state.nodeCount + 1⟩ ∧
      insert nodeCompare (blankNode ipaddr) state.tree = some tree ∧
      Good tree ∧ tree.toList.Perm (blankNode ipaddr :: state.tree.toList) := by
  obtain ⟨tree, hinsert, htree, hedits⟩ :=
    insert_good nodeCompare (blankNode ipaddr) hgood
  refine ⟨tree, ?_, hinsert, htree, hedits.perm⟩
  rw [insertNew, nodeNew, if_neg (by omega)]
  dsimp only
  rw [treeInsert, orFault_eq_ok hinsert]
  rfl

/-- At the limit there is a result for the empty tree only. -/
theorem insertNew_limit (hcount : maxNodes ≤ state.nodeCount) :
    (state.tree = .nil ∧ insertNew ipaddr state = .ok state) ∨
      insertNew ipaddr state = .error .absentNode := by
  obtain ⟨tree, nodeCount⟩ := state
  rw [insertNew, nodeNew, if_pos hcount]
  cases tree with
  | nil => exact .inl ⟨rfl, rfl⟩
  | node left value right height => exact .inr rfl

/-- A removal takes away the node of the address, and counts it. -/
theorem removeFound_good (hgood : Good state.tree) :
    ∃ next, removeFound ipaddr state = .ok next ∧ Good next.tree ∧
      ((find nodeCompare (blankNode ipaddr) state.tree = none ∧ next = state) ∨
        ∃ node, find nodeCompare (blankNode ipaddr) state.tree = some node ∧
          Edits [node] [] state.tree.toList next.tree.toList ∧
          next.nodeCount = state.nodeCount - 1) := by
  cases hfind : find nodeCompare (blankNode ipaddr) state.tree with
  | none =>
    exact ⟨state, by rw [removeFound, hfind], hgood, .inl ⟨rfl, rfl⟩⟩
  | some node =>
    obtain ⟨tree, hremove, htree, hedits⟩ := remove_good nodeCompare node hgood
    rw [find_congr (find_ipaddr hfind).2, hfind] at hedits
    refine ⟨⟨tree, state.nodeCount - 1⟩, ?_, htree,
      .inr ⟨node, rfl, hedits, rfl⟩⟩
    rw [removeFound, hfind]
    dsimp only
    rw [orFault_eq_ok hremove]
    rfl

theorem updateFound_good (change : Node → Node)
    (hgood : Good state.tree) : Good (updateFound ipaddr change state).tree :=
  (update_good nodeCompare (blankNode ipaddr) change hgood).1

end

/-! ## Positions -/

/-- The positions of a node lie in its arrays. -/
structure Node.InRange (node : Node) : Prop where
  daily : node.daily.InRange
  monthly : node.monthly.InRange
  meter : node.meter.InRange

/-- The tree is balanced, and the positions of all nodes lie in their
arrays. -/
structure Sound (state : State) : Prop where
  good : Good state.tree
  inRange : ∀ node ∈ state.tree.toList, node.InRange

theorem start_sound : Sound State.start :=
  ⟨trivial, fun _ hnode => nomatch hnode⟩

variable (ipaddr : Bytes)

theorem blankNode_inRange : (blankNode ipaddr).InRange :=
  ⟨empty_inRange (by decide), empty_inRange (by decide), new_inRange 0⟩

variable (snapshot : Snapshot)

theorem readNode_inRange (counter : Counters)
    {node : Node} (hrange : node.InRange) :
    ∃ next, readNode snapshot counter node = some next ∧ next.InRange := by
  obtain ⟨outcome, meter, hread, hreading⟩ :=
    read_inRange false snapshot.uptime snapshot.fresh counter hrange.meter
  have hmeter : ({ node with meter := meter } : Node).InRange :=
    ⟨hrange.daily, hrange.monthly, hreading.inRange⟩
  simp only [readNode, hread, Option.bind_eq_bind, Option.bind_some]
  cases outcome.bytes with
  | none => exact ⟨_, rfl, hmeter⟩
  | some bytes =>
    dsimp only [addHistory]
    by_cases hready : snapshot.nvram.int (Text.bytes "ntp_ready") ≠ 0
    · obtain ⟨daily, hdaily, hdailyRange⟩ :=
        bump_inRange snapshot.xdaily bytes hrange.daily
      obtain ⟨monthly, hmonthly, hmonthlyRange⟩ :=
        bump_inRange snapshot.xmonthly bytes hrange.monthly
      rw [if_pos hready, hdaily, hmonthly]
      exact ⟨_, rfl, hdailyRange, hmonthlyRange, hreading.inRange⟩
    · rw [if_neg hready]
      exact ⟨_, rfl, hmeter⟩

section
variable {state : State}

theorem updateFound_sound {change : Node → Node}
    (hchange : ∀ node ∈ state.tree.toList, (change node).InRange)
    (hsound : Sound state) : Sound (updateFound ipaddr change state) := by
  refine ⟨updateFound_good ipaddr change hsound.good, ?_⟩
  intro node hnode
  have hperm := (toList_update nodeCompare (blankNode ipaddr) change
    state.tree).perm
  rcases mem_append.mp
    (hperm.mem_iff.mp (mem_append_right _ hnode)) with hnew | hold
  · obtain ⟨found, hfound, rfl⟩ := Option.map_eq_some_iff.mp
      (Option.mem_toList.mp hnew)
    exact hchange found (find_ipaddr hfound).1
  · exact hsound.inRange node hold

theorem insertNew_sound (hsound : Sound state) :
    OkOr Sound .absentNode (insertNew ipaddr state) := by
  by_cases hroom : state.nodeCount < maxNodes
  · obtain ⟨tree, hinsert, -, htree, hperm⟩ :=
      insertNew_below ipaddr hsound.good hroom
    refine .inl ⟨_, hinsert, htree, ?_⟩
    intro node hnode
    rcases mem_cons.mp (hperm.mem_iff.mp hnode) with rfl | hnode
    · exact blankNode_inRange ipaddr
    · exact hsound.inRange node hnode
  · have hfull : maxNodes ≤ state.nodeCount := by omega
    rcases insertNew_limit ipaddr hfull with ⟨-, hsame⟩ | hfault
    · exact .inl ⟨state, hsame, hsound⟩
    · exact .inr hfault

theorem removeFound_sound (hsound : Sound state) :
    ∃ next, removeFound ipaddr state = .ok next ∧ Sound next := by
  obtain ⟨next, hremove, htree, ⟨-, rfl⟩ | ⟨node, -, hedits, -⟩⟩ :=
    removeFound_good ipaddr hsound.good
  · exact ⟨next, hremove, hsound⟩
  · exact ⟨next, hremove, htree, fun other hother =>
      hsound.inRange other (hedits.sublist.subset hother)⟩

theorem readFound_sound (ip : Bytes)
    (counter : Counters) (hsound : Sound state) :
    ∃ next, readFound snapshot ip counter state = .ok next ∧ Sound next := by
  unfold readFound
  cases hfind : find nodeCompare (blankNode ip) state.tree with
  | none => exact ⟨state, rfl, hsound⟩
  | some node =>
    obtain ⟨read, hread, hreadRange⟩ := readNode_inRange snapshot counter
      (hsound.inRange node (find_ipaddr hfind).1)
    refine ⟨updateFound ip (fun _ => read) state, ?_,
      updateFound_sound ip (fun _ _ => hreadRange) hsound⟩
    dsimp only
    rw [orFault_eq_ok hread]
    rfl

theorem countLine_sound (line : Line) (hsound : Sound state) :
    OkOr Sound .absentNode (countLine snapshot line state) := by
  rw [countLine]
  split
  next => exact .inl ⟨state, rfl, hsound⟩
  next =>
    split
    next =>
      refine OkOr.bind (insertNew_sound line.ip hsound) ?_
      intro inserted hinserted
      exact .inl (readFound_sound snapshot line.ip _
        (updateFound_sound line.ip (fun node hnode =>
          let hrange := hinserted.inRange node hnode
          ⟨hrange.daily, hrange.monthly, hrange.meter⟩) hinserted))
    next => exact .inl (readFound_sound snapshot line.ip _ hsound)

/-- The positions in a record lie in the arrays. -/
structure Record.InRange (record : Record) : Prop where
  daily : record.daily.InRange
  monthly : record.monthly.InRange
  tail : -1 ≤ record.tail ∧ record.tail < 2 ^ 31 - 1

theorem fill_inRange (uptime : ℤ) {record : Record} (hrange : record.InRange)
    (node : Node) : (fill uptime record node).InRange := by
  refine ⟨hrange.daily, hrange.monthly, ?_⟩
  change Meter.InRange (ite _ _ _)
  split
  · exact hrange.tail
  · exact hrange.tail

theorem finish_sound (exclude : Bytes) (hsound : Sound state) :
    ∃ next, finish exclude state = .ok next ∧ Sound next := by
  obtain ⟨middle, hmiddle, hmiddleSound⟩ :=
    exists_foldlM_ok (fun _ ip hstate => removeFound_sound ip hstate)
      (exclude.splitOn 44) hsound
  refine ⟨{ middle with tree := middle.tree.map nodeHousekeeping }, ?_,
    (map_good nodeHousekeeping hmiddleSound.good).1, ?_⟩
  · rw [finish, hmiddle]
    rfl
  rw [toList_map]
  intro node hnode
  obtain ⟨before, hbefore, rfl⟩ := mem_map.mp hnode
  have hrange := hmiddleSound.inRange before hbefore
  exact ⟨hrange.daily, hrange.monthly, hrange.meter⟩

end

/-! ## The count and the order -/

/-- The nodes are counted, and there are not too many. -/
structure Counted (state : State) : Prop where
  good : Good state.tree
  count : state.nodeCount = state.tree.toList.length
  limit : state.nodeCount ≤ maxNodes

/-- There is one node for each address, and a search finds it. -/
structure Indexed (state : State) : Prop extends Counted state where
  ordered : Ordered nodeCompare state.tree

theorem start_indexed : Indexed State.start :=
  ⟨⟨trivial, rfl, by decide⟩, List.Pairwise.nil⟩

def addresses (state : State) : List Bytes :=
  state.tree.toList.map (·.ipaddr)

section
variable {state next : State} {ip : Bytes}

variable (hindexed : Indexed state)
include hindexed

theorem Indexed.count_addresses :
    state.nodeCount = (addresses state).length := by
  rw [addresses, length_map]
  exact hindexed.count

/-- The order is one of the addresses. -/
theorem Indexed.of_addresses (hsame : addresses next = addresses state)
    (hcount : next.nodeCount = state.nodeCount) (hgood : Good next.tree) :
    Indexed next := by
  refine ⟨⟨hgood, ?_, ?_⟩, ?_⟩
  · rw [hcount, hindexed.count_addresses, ← hsame, addresses, length_map]
  · rw [hcount]
    exact hindexed.limit
  · have hordered : (addresses state).Pairwise (strcmp · · = .lt) :=
      pairwise_map.mpr hindexed.ordered
    rw [← hsame] at hordered
    exact pairwise_map.mp hordered

theorem Indexed.nodup : (addresses state).Nodup := by
  refine pairwise_map.mpr (hindexed.ordered.imp fun hless hsame => ?_)
  rw [nodeCompare_eq_iff.mpr hsame] at hless
  cases hless

theorem find_eq_none_iff :
    find nodeCompare (blankNode ip) state.tree = none ↔
      ip.take inetAddrstrlen ∉ addresses state := by
  rw [Option.eq_none_iff_forall_not_mem]
  constructor
  · intro hnone hmem
    obtain ⟨node, hnode, hname⟩ := mem_map.mp hmem
    exact hnone node ((find_eq_some_iff hindexed.ordered).mpr
      ⟨hnode, nodeCompare_eq_iff.mpr hname.symm⟩)
  · intro hfresh node hfind
    obtain ⟨hnode, hname⟩ := find_ipaddr hfind
    exact hfresh (mem_map.mpr ⟨node, hnode, hname⟩)

omit hindexed in
theorem addresses_updateFound {change : Node → Node} (hchange : ∀ node,
      find nodeCompare (blankNode ipaddr) state.tree = some node →
        (change node).ipaddr = node.ipaddr) :
    addresses (updateFound ipaddr change state) = addresses state := by
  have hedits := (toList_update nodeCompare (blankNode ipaddr) change
    state.tree).map (·.ipaddr)
  cases hfind : find nodeCompare (blankNode ipaddr) state.tree with
  | none =>
    rw [hfind] at hedits
    exact hedits.eq
  | some node =>
    rw [hfind, Option.map_some, Option.toList_some, Option.toList_some,
      map_singleton, map_singleton, hchange node hfind] at hedits
    exact hedits.eq

theorem updateFound_indexed {change : Node → Node} (hchange : ∀ node,
      find nodeCompare (blankNode ip) state.tree = some node →
        (change node).ipaddr = node.ipaddr) :
    Indexed (updateFound ip change state) :=
  hindexed.of_addresses (addresses_updateFound ip hchange) rfl
    (updateFound_good ip change hindexed.good)

theorem insertNew_indexed
    (hnew : find nodeCompare (blankNode ip) state.tree = none)
    (hroom : state.nodeCount < maxNodes) :
    ∃ next, insertNew ip state = .ok next ∧ Indexed next ∧
      next.tree.toList.Perm (blankNode ip :: state.tree.toList) := by
  obtain ⟨tree, hok, hinsert, htree, hperm⟩ :=
    insertNew_below ip hindexed.good hroom
  refine ⟨⟨tree, state.nodeCount + 1⟩, hok, ⟨⟨htree, ?_, ?_⟩, ?_⟩, hperm⟩
  · change state.nodeCount + 1 = (tree.toList.length : ℤ)
    rw [hperm.length_eq, length_cons, hindexed.count]
    rfl
  · change state.nodeCount + 1 ≤ maxNodes
    omega
  · exact insert_ordered hindexed.good hindexed.ordered hnew hinsert

/-- An insertion that has a result has found room. -/
theorem room_of_insertNew
    (hinsert : insertNew ip state = .ok next) : state.nodeCount < maxNodes := by
  by_contra hroom
  have hcount := hindexed.count
  rcases insertNew_limit ip (Int.not_lt.mp hroom) with ⟨hnil, -⟩ | hfault
  · rw [hnil] at hcount
    rw [hcount] at hroom
    exact hroom (by decide)
  · rw [hinsert] at hfault
    cases hfault

omit hindexed

/-- After a removal there is room for the address that was removed. -/
theorem removeFound_indexed (ip : Bytes) (hindexed : Indexed state) :
    ∃ next, removeFound ip state = .ok next ∧ Indexed next ∧
      (∀ node, node ∈ next.tree.toList ↔
        node ∈ state.tree.toList ∧ node.ipaddr ≠ ip.take inetAddrstrlen) ∧
      ((find nodeCompare (blankNode ip) state.tree = none ∧ next = state) ∨
        next.nodeCount < maxNodes) := by
  obtain ⟨next, hremove, htree, hfound⟩ := removeFound_good ip hindexed.good
  refine ⟨next, hremove, ?_⟩
  rcases hfound with ⟨hnone, rfl⟩ | ⟨found, hfind, hedits, hcount⟩
  · refine ⟨hindexed, fun node => ?_, .inl ⟨hnone, rfl⟩⟩
    refine ⟨fun hnode => ⟨hnode, fun hsame => ?_⟩, And.left⟩
    exact (find_eq_none_iff hindexed).mp hnone
      (mem_map.mpr ⟨node, hnode, hsame⟩)
  have hname : found.ipaddr = ip.take inetAddrstrlen := (find_ipaddr hfind).2
  have hperm : (found :: next.tree.toList).Perm state.tree.toList :=
    hedits.perm
  have hlength := hperm.length_eq
  have hstate := hindexed.count
  have hlimit := hindexed.limit
  have hnodup : (found.ipaddr :: addresses next).Nodup :=
    (hperm.map Node.ipaddr).nodup_iff.mpr hindexed.nodup
  rw [length_cons] at hlength
  refine ⟨⟨⟨htree, by omega, by omega⟩,
    hindexed.ordered.sublist hedits.sublist⟩, fun node => ⟨fun hnode =>
      ⟨hedits.sublist.subset hnode, fun hsame => ?_⟩, ?_⟩, .inr (by omega)⟩
  · rw [← hname] at hsame
    exact (nodup_cons.mp hnodup).1
      (mem_map.mpr ⟨node, hnode, hsame⟩)
  · rintro ⟨hnode, hdiffer⟩
    rcases mem_cons.mp (hperm.mem_iff.mpr hnode) with rfl | hnode
    · exact (hdiffer hname).elim
    · exact hnode

/-- The node of a record. -/
def Record.node (uptime : ℤ) (record : Record) : Node :=
  fill uptime record (blankNode record.ipaddr)

/-- An accepted record takes the place of the node with its address. -/
theorem loadRecord_indexed {exclude : Bytes} (uptime : ℤ) {record : Record}
    (hindexed : Indexed state) (haccepted : accepted exclude record = true)
    (hfits : find nodeCompare (blankNode record.ipaddr) state.tree = none →
      state.nodeCount < maxNodes) :
    ∃ next, loadRecord exclude uptime record state = .ok next ∧
      Indexed next ∧ ∀ node, node ∈ next.tree.toList ↔
        node = record.node uptime ∨ node ∈ state.tree.toList ∧
          node.ipaddr ≠ (record.node uptime).ipaddr := by
  obtain ⟨removed, hremoved, hremovedIndexed, hmem, hroom⟩ :=
    removeFound_indexed record.ipaddr hindexed
  have hnew : find nodeCompare (blankNode record.ipaddr) removed.tree =
      none := by
    refine (find_eq_none_iff hremovedIndexed).mpr fun haddress => ?_
    obtain ⟨node, hnode, hname⟩ := mem_map.mp haddress
    exact ((hmem node).mp hnode).2 hname
  have hbelow : removed.nodeCount < maxNodes := by
    rcases hroom with ⟨hnone, rfl⟩ | hbelow
    · exact hfits hnone
    · exact hbelow
  obtain ⟨inserted, hinserted, hinsertedIndexed, hperm⟩ :=
    insertNew_indexed hremovedIndexed hnew hbelow
  have hfind : find nodeCompare (blankNode record.ipaddr) inserted.tree =
      some (blankNode record.ipaddr) :=
    (find_eq_some_iff hinsertedIndexed.ordered).mpr
      ⟨hperm.mem_iff.mpr mem_cons_self, nodeCompare_eq_iff.mpr rfl⟩
  have hedits := toList_update nodeCompare (blankNode record.ipaddr)
    (fill uptime record) inserted.tree
  rw [hfind] at hedits
  have hfilled : (updateFound record.ipaddr (fill uptime record)
      inserted).tree.toList.Perm (record.node uptime :: removed.tree.toList) :=
    (hedits.perm.trans ((hperm.cons _).trans (.swap _ _ _))).cons_inv
  refine ⟨updateFound record.ipaddr (fill uptime record) inserted, ?_,
    updateFound_indexed hinsertedIndexed fun _ _ => rfl, fun node => ?_⟩
  · rw [loadRecord, if_pos haccepted]
    exact bind_eq_ok_iff.mpr ⟨removed, hremoved,
      bind_eq_ok_iff.mpr ⟨inserted, hinserted, rfl⟩⟩
  · rw [hfilled.mem_iff, mem_cons, hmem]
    rfl

theorem readNode_ipaddr {snapshot : Snapshot} {counter : Counters}
    {node read : Node} (hread : readNode snapshot counter node = some read) :
    read.ipaddr = node.ipaddr := by
  obtain ⟨⟨outcome, meter⟩, -, hread⟩ := Option.bind_eq_some_iff.mp hread
  dsimp only at hread
  split at hread
  · rw [← Option.some.inj hread]
  rw [addHistory] at hread
  split at hread
  · obtain ⟨daily, -, hread⟩ := Option.bind_eq_some_iff.mp hread
    obtain ⟨monthly, -, hread⟩ := Option.bind_eq_some_iff.mp hread
    rw [← Option.some.inj hread]
  · rw [← Option.some.inj hread]

theorem readFound_indexed (ip : Bytes)
    (counter : Counters) (hindexed : Indexed state) :
    OkOr (fun next => Indexed next ∧ addresses next = addresses state)
      .outOfRange (readFound snapshot ip counter state) := by
  unfold readFound
  cases hfind : find nodeCompare (blankNode ip) state.tree with
  | none => exact .inl ⟨state, rfl, hindexed, rfl⟩
  | some node =>
    dsimp only
    cases hread : readNode snapshot counter node with
    | none => exact .inr rfl
    | some read =>
      have hchange : ∀ found,
          find nodeCompare (blankNode ip) state.tree = some found →
            read.ipaddr = found.ipaddr := by
        intro found hfound
        obtain rfl := Option.some.inj (hfind.symm.trans hfound)
        exact readNode_ipaddr hread
      exact .inl ⟨_, rfl, updateFound_indexed hindexed hchange,
        addresses_updateFound ip hchange⟩

/-- A line brings in its host, or leaves the addresses as they are. -/
theorem countLine_indexed {snapshot : Snapshot} {line : Line}
    (hindexed : Indexed state) (hroom : brings snapshot line state = true →
      state.nodeCount < maxNodes) :
    OkOr (fun next => Indexed next ∧
        if brings snapshot line state then
          (addresses next).Perm (line.ip :: addresses state)
        else addresses next = addresses state)
      .outOfRange (countLine snapshot line state) := by
  by_cases hbrings : brings snapshot line state = true
  · have hhost : findWord snapshot.exclude line.ip = false ∧
        find nodeCompare (blankNode line.ip) state.tree = none := by
      simp only [brings, Bool.and_eq_true, Bool.not_eq_true',
        Option.isNone_iff_eq_none] at hbrings
      exact hbrings.1.1
    obtain ⟨inserted, hinserted, hinsertedIndexed, hperm⟩ :=
      insertNew_indexed hindexed hhost.2 (hroom hbrings)
    have hip : (blankNode line.ip).ipaddr = line.ip :=
      take_of_length_le (Nat.le_of_lt line.length_ip)
    have haddresses : (addresses inserted).Perm
        (line.ip :: addresses state) := by
      have hmapped := hperm.map Node.ipaddr
      rw [map_cons, hip] at hmapped
      exact hmapped
    simp only [hbrings, if_true]
    rw [countLine, hhost.1, if_neg Bool.false_ne_true, if_pos hbrings]
    refine OkOr.bind (.inl ⟨inserted, hinserted, rfl⟩) ?_
    rintro _ rfl
    have hstarted : Indexed
        (updateFound line.ip (startSync snapshot) inserted) :=
      updateFound_indexed hinsertedIndexed fun _ _ => rfl
    refine (readFound_indexed snapshot line.ip _ hstarted).imp ?_ id
    rintro ⟨next, hnext, hnextIndexed, hsame⟩
    refine ⟨next, hnext, hnextIndexed, ?_⟩
    rw [hsame, addresses_updateFound line.ip]
    · exact haddresses
    · exact fun _ _ => rfl
  · simp only [hbrings, Bool.false_eq_true, if_false]
    rw [countLine, if_neg hbrings]
    split
    · exact .inl ⟨state, rfl, hindexed, rfl⟩
    · exact readFound_indexed snapshot line.ip _ hindexed

/-- The pieces between the commas are taken out, as far as they fit into an
address. -/
theorem finish_indexed (exclude : Bytes) (hindexed : Indexed state) :
    ∃ next, finish exclude state = .ok next ∧ Indexed next ∧
      ∀ ip, ip ∈ addresses next ↔ ip ∈ addresses state ∧
        ip ∉ (exclude.splitOn 44).map (List.take inetAddrstrlen) := by
  obtain ⟨middle, hmiddle, hmiddleIndexed, hmem⟩ :
      ∃ middle, (exclude.splitOn 44).foldlM
          (fun state ip => removeFound ip state) state = .ok middle ∧
        Indexed middle ∧ ∀ ip, ip ∈ addresses middle ↔
          ip ∈ addresses state ∧
            ip ∉ (exclude.splitOn 44).map (List.take inetAddrstrlen) := by
    induction exclude.splitOn 44 generalizing state with
    | nil => exact ⟨state, rfl, hindexed, fun _ => by simp⟩
    | cons piece pieces ih =>
      obtain ⟨removed, hremove, hremoved, hnodes, -⟩ :=
        removeFound_indexed piece hindexed
      obtain ⟨next, hnext, hnextIndexed, haddresses⟩ := ih hremoved
      refine ⟨next, ?_, hnextIndexed, fun ip => ?_⟩
      · rw [foldlM_cons, hremove]
        exact hnext
      have hpiece : ip ∈ addresses removed ↔
          ip ∈ addresses state ∧ ip ≠ piece.take inetAddrstrlen := by
        simp only [addresses, mem_map, hnodes]
        constructor
        · rintro ⟨node, ⟨hnode, hdiffer⟩, rfl⟩
          exact ⟨⟨node, hnode, rfl⟩, hdiffer⟩
        · rintro ⟨⟨node, hnode, rfl⟩, hdiffer⟩
          exact ⟨node, ⟨hnode, hdiffer⟩, rfl⟩
      rw [haddresses, hpiece, map_cons, mem_cons, not_or, and_assoc]
  have hsame : addresses
      { middle with tree := middle.tree.map nodeHousekeeping } =
        addresses middle := by
    rw [addresses, toList_map, map_map]
    rfl
  refine ⟨{ middle with tree := middle.tree.map nodeHousekeeping }, ?_,
    hmiddleIndexed.of_addresses hsame rfl
      (map_good nodeHousekeeping hmiddleIndexed.good).1, fun ip => ?_⟩
  · rw [finish, hmiddle]
    rfl
  · rw [hsame, hmem]

/-- The event brings no host into a tree that is full. -/
def Fits (state : State) : Event → Prop
  | .record exclude _ record =>
    accepted exclude record = true →
    find nodeCompare (blankNode record.ipaddr) state.tree = none →
      state.nodeCount < maxNodes
  | .line snapshot line =>
    brings snapshot line state = true → state.nodeCount < maxNodes
  | _ => True

theorem step_indexed {event : Event} (hindexed : Indexed state)
    (hfits : Fits state event) :
    OkOr Indexed .outOfRange (step state event) := by
  cases event with
  | record exclude uptime record =>
    rw [step]
    by_cases haccepted : accepted exclude record = true
    · obtain ⟨next, hnext, hnextIndexed, -⟩ :=
        loadRecord_indexed uptime hindexed haccepted (hfits haccepted)
      exact .inl ⟨next, hnext, hnextIndexed⟩
    · rw [loadRecord, if_neg haccepted]
      exact .inl ⟨state, rfl, hindexed⟩
  | line snapshot line =>
    refine (countLine_indexed hindexed hfits).imp ?_ id
    rintro ⟨next, hnext, hnextIndexed, -⟩
    exact ⟨next, hnext, hnextIndexed⟩
  | finish exclude =>
    obtain ⟨next, hnext, hnextIndexed, -⟩ := finish_indexed exclude hindexed
    exact .inl ⟨next, hnext, hnextIndexed⟩
  | saveSpeedjs =>
    rw [step]
    cases state.tree.toList.mapM nodePrintSpeedjs with
    | none => exact .inr rfl
    | some _ => exact .inl ⟨state, rfl, hindexed⟩
  | saveHistjs =>
    rw [step]
    cases state.tree.toList.mapM nodePrintDatajs with
    | none => exact .inr rfl
    | some _ => exact .inl ⟨state, rfl, hindexed⟩

end

/-! ## Many hosts -/

/-- All hosts are counted, and none is excluded. -/
def openSnapshot : Snapshot :=
  ⟨0, fun key => if key = bytes "cstats_all" then bytes "1" else [], false, 0,
    1, 1⟩

/-- The hosts of `10.0.0.0/16`. -/
def hostIp (index : ℕ) : Bytes :=
  bytes "10.0." ++ (decimal (index / 256 % 256) ++
    46 :: decimal (index % 256))

theorem length_hostIp_lt (index : ℕ) :
    (hostIp index).length < inetAddrstrlen := by
  have hoctet : ∀ octet < 256, (decimal octet).length ≤ 3 :=
    fun octet hlt => length_decimal_le_of_lt (by omega)
  have hfirst := hoctet (index / 256 % 256) (Nat.mod_lt _ (by decide))
  have hsecond := hoctet (index % 256) (Nat.mod_lt _ (by decide))
  have hfront : (bytes "10.0.").length = 5 := by decide
  rw [hostIp, length_append, length_append, length_cons, hfront, inetAddrstrlen]
  omega

def hostLine (index : ℕ) : Line :=
  ⟨hostIp index, 1, 1, length_hostIp_lt index⟩

theorem hostIp_inj {left right : ℕ} (hleft : left < 2 ^ 16)
    (hright : right < 2 ^ 16) (heq : hostIp left = hostIp right) :
    left = right := by
  have hdot : ∀ rest : Bytes, ∀ char,
      (46 :: rest).head? = some char → isDigit char = false := by
    intro rest char hchar
    obtain rfl : (46 : Byte) = char := Option.some.inj hchar
    decide
  obtain ⟨hhigh, htail⟩ := decimal_append_inj (hdot _) (hdot _)
    (append_cancel_left heq)
  have hlow := decimal_injective (List.cons.inj htail).2
  omega

theorem brings_host {state : State} (hindexed : Indexed state) {index : ℕ}
    (hfresh : hostIp index ∉ addresses state) :
    brings openSnapshot (hostLine index) state = true := by
  have hexclude : findWord openSnapshot.exclude (hostIp index) = false := rfl
  have hall : selected openSnapshot (hostIp index) = true := rfl
  have hfind : find nodeCompare (blankNode (hostIp index)) state.tree =
      none := by
    rw [find_eq_none_iff hindexed,
      take_of_length_le (Nat.le_of_lt (length_hostIp_lt index))]
    exact hfresh
  rw [brings]
  change (!findWord openSnapshot.exclude (hostIp index) &&
    (find nodeCompare (blankNode (hostIp index)) state.tree).isNone && _ &&
    selected openSnapshot (hostIp index)) = true
  rw [hexclude, hfind, hall]
  rfl

/-- As many hosts as are allowed come into the tree. -/
theorem run_hosts {count : ℕ} (hcount : count ≤ 2000) :
    ∃ state, run ((range count).map fun index =>
        .line openSnapshot (hostLine index)) = .ok state ∧
      Indexed state ∧ Sound state ∧ state.nodeCount = count ∧
      ∀ ip ∈ addresses state, ∃ index < count, ip = hostIp index := by
  induction count with
  | zero =>
    exact ⟨State.start, rfl, start_indexed, start_sound, rfl,
      fun _ hip => nomatch hip⟩
  | succ count ih =>
    obtain ⟨state, hrun, hindexed, hsound, hnumber, haddresses⟩ := ih (by omega)
    have hfresh : hostIp count ∉ addresses state := by
      intro hmem
      obtain ⟨index, hindex, heq⟩ := haddresses _ hmem
      have hsame := hostIp_inj (by omega) (by omega) heq
      omega
    have hroom : state.nodeCount < maxNodes := by
      rw [hnumber, maxNodes]
      omega
    obtain ⟨next, hnext, ⟨hnextIndexed, hperm⟩, hnextSound⟩ :=
      (countLine_indexed hindexed fun _ => hroom).and
        (countLine_sound openSnapshot (hostLine count) hsound) (by decide)
    rw [if_pos (brings_host hindexed hfresh)] at hperm
    refine ⟨next, ?_, hnextIndexed, hnextSound, ?_, ?_⟩
    · rw [run] at hrun
      rw [run, range_succ, map_append, foldlM_append, hrun]
      change (countLine openSnapshot (hostLine count) state >>= pure) = _
      rw [hnext]
      rfl
    · rw [hnextIndexed.count_addresses, hperm.length_eq, length_cons,
        Int.natCast_succ, ← hindexed.count_addresses, hnumber]
      rfl
    · intro ip hip
      rcases mem_cons.mp (hperm.mem_iff.mp hip) with rfl | hold
      · exact ⟨count, by omega, rfl⟩
      · obtain ⟨index, hindex, rfl⟩ := haddresses ip hold
        exact ⟨index, by omega, rfl⟩

/-- A tree with room for as many nodes as there are lines takes them all. -/
theorem guarded_lines (snapshot : Snapshot) (lines : List Line) {state : State}
    (hindexed : Indexed state)
    (hroom : state.nodeCount + lines.length ≤ maxNodes) :
    Guarded (fun state event => (step state event).toOption) Fits state
      (lines.map (.line snapshot)) := by
  induction lines generalizing state with
  | nil => trivial
  | cons line lines ih =>
    rw [length_cons, Int.natCast_succ] at hroom
    have hbelow : state.nodeCount < maxNodes := by omega
    refine ⟨fun _ => hbelow, fun next hnext => ?_⟩
    have hok : countLine snapshot line state = .ok next := by
      change (countLine snapshot line state).toOption = some next at hnext
      cases hcount : countLine snapshot line state with
      | error => rw [hcount] at hnext; cases hnext
      | ok => rw [hcount] at hnext; rw [Option.some.inj hnext]
    obtain ⟨hnextIndexed, haddresses⟩ :=
      (countLine_indexed hindexed fun _ => hbelow).of_ok hok
    refine ih hnextIndexed ?_
    -- A line brings one address at most.
    have hlength : (addresses next).length ≤ (addresses state).length + 1 := by
      split at haddresses
      · exact Nat.le_of_eq haddresses.length_eq
      · rw [haddresses]
        exact Nat.le_succ _
    rw [hnextIndexed.count_addresses]
    rw [hindexed.count_addresses] at hroom
    omega

/-- In a run that never brings a host into a full tree, the count is the number
of nodes and keeps the limit, and no absent node is used.  It may end at an
access outside an array. -/
theorem run_counted {events : List Event}
    (hguarded : Guarded (fun state event => (step state event).toOption) Fits
      State.start events) :
    OkOr Counted .outOfRange (run events) := by
  refine (okOr_foldlM step Fits Indexed .outOfRange
    (fun _ _ hindexed hfits => step_indexed hindexed hfits) start_indexed
    hguarded).imp ?_ id
  rintro ⟨state, hstate, hindexed⟩
  exact ⟨state, hstate, hindexed.toCounted⟩

theorem run_counted_hosts : ∃ state,
    run ((range 200).map fun index => .line openSnapshot (hostLine index)) =
      .ok state ∧ Counted state ∧ state.nodeCount = 200 := by
  obtain ⟨state, hrun, -, -, hnumber, -⟩ :=
    run_hosts (by decide : 200 ≤ 2000)
  have hroom : (0 : ℤ) + ((range 200).map hostLine).length ≤ maxNodes := by
    rw [length_map, length_range]
    decide
  have hguarded := guarded_lines openSnapshot _ start_indexed hroom
  rw [map_map] at hguarded
  exact ⟨state, hrun, (run_counted hguarded).of_ok hrun, hnumber⟩

/-- With one host more than the limit the absent node is compared. -/
theorem run_absentNode :
    run ((range 2001).map fun index =>
      .line openSnapshot (hostLine index)) = .error .absentNode := by
  obtain ⟨state, hrun, hindexed, -, hnumber, haddresses⟩ :=
    run_hosts (Nat.le_refl 2000)
  have hfresh : hostIp 2000 ∉ addresses state := by
    intro hmem
    obtain ⟨index, hindex, heq⟩ := haddresses _ hmem
    have hsame := hostIp_inj (by decide) (by omega) heq
    omega
  have hfull : maxNodes ≤ state.nodeCount := by
    rw [hnumber]
    decide
  have hfault : insertNew (hostIp 2000) state = .error .absentNode := by
    rcases insertNew_limit (hostIp 2000) hfull with ⟨hempty, -⟩ | hfault
    · have hzero := hindexed.count
      rw [hempty, hnumber] at hzero
      cases hzero
    · exact hfault
  have hline : countLine openSnapshot (hostLine 2000) state =
      .error .absentNode := by
    rw [countLine, if_neg (by exact Bool.false_ne_true),
      if_pos (brings_host hindexed hfresh)]
    change (insertNew (hostIp 2000) state >>= _) = _
    rw [hfault]
    rfl
  rw [run] at hrun
  rw [run, range_succ, map_append, foldlM_append, hrun]
  change (countLine openSnapshot (hostLine 2000) state >>= pure) = _
  rw [hline]
  rfl

end Tomato64.Cstats
