-- SUMMARY: Where the entries of a sibling table come from, over the whole history of a run.
import TriHaRd.Untainting.Moves

/-!
# Records

In a run from an empty table, an entry is either new or was recorded from one
delivered reply, and what was recorded once is only replaced by a newer round.
The addresses in the table are distinct.
-/

namespace TriHaRd

open Lts

/-- The step delivers a reply that is newer than its sender's entry, and `peer` is the
    entry that the reply asks for. -/
def Records (u : NodeStep) (peer : Peer) : Prop :=
  ∃ payload old, u.act.IsReply u.pre.node payload peer.toAddr ∧
    u.pre.node.findSibling peer.toAddr = some old ∧
    old.lastTsIsConsistent.1 < (readUntaint payload).count ∧
    peer.lastTsIsConsistent =
      ((readUntaint payload).count, u.pre.node.peerIsConsistent (readUntaint payload)) ∧
    peer.viewsAsConsistent = (readUntaint payload).viewsAsConsistent

/-- What the table says is what the history says. -/
structure TableHistory (tr : List NodeStep) (siblings : List Peer) : Prop where
  distinct : (siblings.map Peer.toAddr).Nodup
  recorded : ∀ peer ∈ siblings, peer = Peer.new peer.toAddr ∨ ∃ u ∈ tr, Records u peer
  kept : ∀ u ∈ tr, ∀ peer, Records u peer → ∃ entry ∈ siblings,
    entry.toAddr = peer.toAddr ∧
      (entry = peer ∨ peer.lastTsIsConsistent.1 < entry.lastTsIsConsistent.1)

namespace TableHistory

variable {tr : List NodeStep} {t : NodeStep} {siblings : List Peer}

theorem nil : TableHistory [] [] where
  distinct := List.nodup_nil
  recorded := fun _ h => by cases h
  kept := fun _ h => by cases h

/-- A step that is no reply records nothing. -/
theorem extend (h : TableHistory tr siblings)
    (hact : ¬ ∃ payload src, t.act.IsReply t.pre.node payload src) :
    TableHistory (tr ++ [t]) siblings where
  distinct := h.distinct
  recorded := fun peer hpeer => by
    rcases h.recorded peer hpeer with hnew | ⟨u, hu, hrec⟩
    · exact .inl hnew
    · exact .inr ⟨u, List.mem_append_left _ hu, hrec⟩
  kept := fun u hu peer hrec => by
    rcases List.mem_append.mp hu with hold | hlast
    · exact h.kept u hold peer hrec
    · obtain ⟨payload, _, hreply, _⟩ := hrec
      rw [List.mem_singleton.mp hlast] at hreply
      exact absurd ⟨payload, peer.toAddr, hreply⟩ hact

theorem join (h : TableHistory tr siblings) {addr : Addr}
    (hnew : Table.lookup Peer.toAddr addr siblings = none) :
    TableHistory tr (siblings ++ [Peer.new addr]) where
  distinct := Table.nodup_keys_append h.distinct hnew
  recorded := fun peer hpeer => by
    rcases List.mem_append.mp hpeer with hold | hlast
    · exact h.recorded peer hold
    · rw [List.mem_singleton.mp hlast]
      exact .inl rfl
  kept := fun u hu peer hrec => by
    obtain ⟨entry, hentry, hkept⟩ := h.kept u hu peer hrec
    exact ⟨entry, List.mem_append_left _ hentry, hkept⟩

/-- A reply records its entry if it is newer, and otherwise changes nothing. -/
theorem reply (h : TableHistory tr t.pre.node.siblings) {payload : List UInt8} {src : Addr}
    (hreply : t.act.IsReply t.pre.node payload src) :
    TableHistory (tr ++ [t]) (t.pre.node.recordUntaint src (readUntaint payload)) := by
  obtain ⟨old, hold⟩ := Option.isSome_iff_exists.mp hreply.2.2
  have hlookup := ENode.lookup_recordUntaint_of_find hold (readUntaint payload)
  have haddr : old.toAddr = src := Table.key_of_lookup hold
  constructor
  case distinct =>
    rw [ENode.map_toAddr_recordUntaint]
    exact h.distinct
  case recorded =>
    intro peer hpeer
    rcases Table.mem_update hpeer with hmem | ⟨x, hx, hupdated⟩
    · rcases h.recorded peer hmem with hnew | ⟨u, hu, hrec⟩
      · exact .inl hnew
      · exact .inr ⟨u, List.mem_append_left _ hu, hrec⟩
    · obtain rfl : x = old := Option.some.inj (hx.symm.trans hold)
      rw [hupdated]
      rcases Int.lt_or_le x.lastTsIsConsistent.1 (readUntaint payload).count with hgt | hle
      · rw [ENode.recordReply_of_newer hgt]
        refine .inr ⟨t, by simp, payload, x, ?_, ?_, hgt, rfl, rfl⟩
        · exact haddr ▸ hreply
        · exact haddr ▸ hold
      · rw [ENode.recordReply_of_replayed hle]
        rcases h.recorded x (Table.mem_of_lookup hold) with hnew | ⟨u, hu, hrec⟩
        · exact .inl hnew
        · exact .inr ⟨u, List.mem_append_left _ hu, hrec⟩
  case kept =>
    intro u hu peer hrec
    rcases List.mem_append.mp hu with hmem | hlast
    · obtain ⟨entry, hentry, heq, hkept⟩ := h.kept u hmem peer hrec
      have hfind : t.pre.node.findSibling peer.toAddr = some entry :=
        heq ▸ Table.lookup_of_mem h.distinct hentry
      by_cases hsrc : peer.toAddr = src
      · -- the entry of the sender may only have become newer
        obtain rfl : entry = old := Option.some.inj (hfind.symm.trans (hsrc ▸ hold))
        refine ⟨t.pre.node.recordReply (readUntaint payload) entry,
          Table.mem_of_lookup ((hlookup src).trans (if_pos rfl)), ?_, ?_⟩
        · rw [ENode.recordReply_toAddr, heq]
        · rcases Int.lt_or_le entry.lastTsIsConsistent.1 (readUntaint payload).count with hgt | hle
          · rw [ENode.recordReply_of_newer hgt]
            right
            dsimp only
            rcases hkept with rfl | hlt
            · exact hgt
            · exact hlt.trans hgt
          · rw [ENode.recordReply_of_replayed hle]
            exact hkept
      · refine ⟨entry, Table.mem_of_lookup ((hlookup peer.toAddr).trans ?_), heq, hkept⟩
        rw [if_neg hsrc, hfind]
    · rw [List.mem_singleton.mp hlast] at hrec
      obtain ⟨payload', old', hreply', hold', hgt, hentry, hviews⟩ := hrec
      obtain ⟨⟨_, hact⟩, _⟩ := hreply
      obtain ⟨⟨_, hact'⟩, _⟩ := hreply'
      obtain ⟨rfl, hsrc, -⟩ := Action.recv.inj (hact.symm.trans hact')
      rw [← hsrc] at hold'
      obtain rfl : old' = old := Option.some.inj (hold'.symm.trans hold)
      refine ⟨t.pre.node.recordReply (readUntaint payload) old',
        Table.mem_of_lookup ((hlookup src).trans (if_pos rfl)), ?_, .inl ?_⟩
      · rw [ENode.recordReply_toAddr, haddr, hsrc]
      · rw [ENode.recordReply_of_newer hgt]
        obtain ⟨addr, last, views⟩ := peer
        dsimp only at hsrc hentry hviews
        rw [hentry, hviews, ← hsrc, haddr]

end TableHistory

/-- In every run from an empty table, the table is what the history made it. -/
theorem tableHistory_of_run {b : Build} {s₀ s : System} {tr : List NodeStep}
    (h : NodeRun b s₀ tr s) (hempty : s₀.node.siblings = []) :
    TableHistory tr s.node.siblings := by
  refine h.history (I := fun past s => TableHistory past s.node.siblings) (fun past t hs h => ?_)
    (hempty ▸ .nil)
  cases NodeStep.peerMove hs with
  | keep hkeep hact =>
      rw [hkeep.siblings]
      exact h.extend hact
  | round amb hround hact =>
      rw [(Prod.mk.inj hround).1]
      exact h.extend hact
  | join addr _ hnew hpost _ hact =>
      rw [hpost]
      exact (h.join hnew).extend hact
  | reply payload src hreply hpost _ =>
      rw [hpost, ENode.handleUntaint_of_sibling hreply.2.1.2 hreply.2.2]
      exact h.reply hreply

end TriHaRd
