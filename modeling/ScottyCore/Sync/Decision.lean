import ScottyCore.Sync.Reapply

namespace ScottyCore
open Python MeshSyncEngine
set_option autoImplicit true

variable {b b' : Backend} {m : Model} {row local_row : Dict} {d e : DateTime}

/-! ## The last-writer-wins decision on serialised rows -/

/-- A row as `_row_to_dict` writes it: `updated_at` in ISO format, naive from SQLite and with an
offset, whichever, from PostgreSQL. -/
structure Serialised (b : Backend) (row : Dict) (d : DateTime) : Prop where
  get : row.get "updated_at" = .str d.isoformat
  naive : d.isNaive = decide (b = .sqlite)

theorem serialised_rowToDict (r : Row b m) (ht : m.timestamped = true) :
    ∃ d, Serialised b (rowToDict r) d := by
  obtain ⟨d, _, hget, hnative⟩ := r.updatedAt_of_timestamped ht
  refine ⟨d, ?_, Backend.isNaive_of_native hnative⟩
  rw [rowToDict_get, hget]
  rfl

theorem Serialised.parseTs (h : Serialised b row d) : parseTs (row.get "updated_at") = some d := by
  rw [h.get, parseTs_isoformat]

/-- What one node decides on a remote row against its own. -/
def remoteWins (row local_row : Dict) (remote_node_id local_node_id : String) : Except Exc Bool :=
  lwwRemoteWins (ScottyCore.parseTs (row.get "updated_at"))
    (ScottyCore.parseTs (local_row.get "updated_at")) remote_node_id local_node_id

/-- Both nodes decide, for the later instant, and only one of them for the other's row. -/
structure Decides (row local_row : Dict) (d e : DateTime) (remote_node_id local_node_id : String)
    (wins loses : Bool) : Prop where
  here : remoteWins row local_row remote_node_id local_node_id = .ok wins
  there : remoteWins local_row row local_node_id remote_node_id = .ok loses
  later : e.instant < d.instant → wins = true
  earlier : d.instant < e.instant → wins = false
  opposite : remote_node_id ≠ local_node_id → (wins = true ↔ loses = false)

/-- No node that holds the local row skips the remote one because of its timestamp. -/
def NotSkipped (b : Backend) (row local_row : Dict) (remote_node_id local_node_id : String) :
    Prop :=
  ∀ (eng : MeshSyncEngine b) (c : Contributor b) (peer_id : String) (inst : Installation b) exc,
    eng.local_node.id = local_node_id → localRow c row inst = some local_row →
    (eng.applyRow c peer_id remote_node_id row inst).1 ≠ .incomparable exc

theorem applyRow_comparable {eng : MeshSyncEngine b} {c : Contributor b} {inst : Installation b}
    (hlocal : localRow c row inst = some local_row)
    (hwins : remoteWins row local_row origin eng.local_node.id = .ok wins) :
    (eng.applyRow c peer_id origin row inst).1 ≠ .incomparable exc := by
  have hrestore : (restoreRow c origin row inst).1 ≠ .incomparable exc := by
    rw [restoreRow]
    split
    · intro h
      cases h
    · intro h
      cases h
  rw [remoteWins] at hwins
  simp only [applyRow, hlocal, Option.bind_some, hwins]
  cases wins with
  | true => exact hrestore
  | false =>
    simp only
    split
    · intro h
      cases h
    · exact hrestore

/-- Of two different nodes with one instant, exactly one keeps its row. -/
theorem opposite_wins {i j : Int} {x y : String} (hne : x ≠ y) :
    (j < i ∨ (j = i ∧ y ≤ x)) ↔ ¬ (i < j ∨ (i = j ∧ x ≤ y)) := by
  have hxy : x ≤ y ↔ ¬ y ≤ x := by
    rw [not_le]
    exact ⟨fun h => lt_of_le_of_ne h hne, le_of_lt⟩
  rcases lt_trichotomy i j with h | rfl | h
  · simp [h, h.not_gt, h.ne']
  · simp only [lt_irrefl, false_or, true_and, hxy, not_not]
  · simp [h, h.not_gt, h.ne']

theorem decides_of_comparable (hd : Serialised b row d) (he : Serialised b local_row e)
    (remote_node_id local_node_id : String) :
    ∃ wins loses, Decides row local_row d e remote_node_id local_node_id wins loses := by
  have hn : e.isNaive = d.isNaive := he.naive.trans hd.naive.symm
  have hhere : remoteWins row local_row remote_node_id local_node_id =
      .ok (decide (e.instant < d.instant ∨
        (e.instant = d.instant ∧ local_node_id ≤ remote_node_id))) := by
    rw [remoteWins, hd.parseTs, he.parseTs, lww_of_comparable hn]
  have hthere : remoteWins local_row row local_node_id remote_node_id =
      .ok (decide (d.instant < e.instant ∨
        (d.instant = e.instant ∧ remote_node_id ≤ local_node_id))) := by
    rw [remoteWins, hd.parseTs, he.parseTs, lww_of_comparable hn.symm]
  refine ⟨_, _, hhere, hthere, fun h => decide_eq_true (.inl h), ?_, ?_⟩
  · intro h
    apply decide_eq_false
    rintro (hlt | ⟨heq, _⟩)
    · exact lt_asymm h hlt
    · exact h.ne heq.symm
  · intro hne
    rw [decide_eq_true_iff, decide_eq_false_iff_not]
    exact opposite_wins hne

/-- A naive timestamp does not compare with an aware one. -/
theorem not_decides (hd : Serialised b row d) (he : Serialised b' local_row e) (hb : b ≠ b') :
    ¬ Decides row local_row d e remote_node_id local_node_id wins loses := by
  intro hdecides
  have hhere := hdecides.here
  have hn : e.isNaive ≠ d.isNaive := by
    rw [he.naive, hd.naive]
    intro h
    cases b <;> cases b' <;> first | exact hb rfl | cases h
  obtain ⟨exc, hexc⟩ : ∃ exc, lwwRemoteWins (some d) (some e) remote_node_id local_node_id =
      .error exc := lww_of_incomparable hn
  rw [remoteWins, hd.parseTs, he.parseTs, hexc] at hhere
  cases hhere

/-- The decision is made on every pair of serialised rows exactly when both come from one kind of
database. -/
theorem lww_decided_iff (hd : Serialised b row d) (he : Serialised b' local_row e)
    (remote_node_id local_node_id : String) :
    ((∃ wins loses, Decides row local_row d e remote_node_id local_node_id wins loses) ∧
      NotSkipped b' row local_row remote_node_id local_node_id) ↔ b = b' := by
  constructor
  · rintro ⟨⟨wins, loses, hdecides⟩, _⟩
    by_contra hb
    exact not_decides hd he hb hdecides
  · rintro rfl
    obtain ⟨wins, loses, hdecides⟩ := decides_of_comparable hd he remote_node_id local_node_id
    refine ⟨⟨wins, loses, hdecides⟩, ?_⟩
    rintro eng c peer_id inst exc rfl hlocal
    exact applyRow_comparable hlocal hdecides.here

/-! ## Two versions of one user -/

theorem lww_decided_alice :
    (∃ wins loses, Decides (rowToDict (alice "Alice" noon)) (rowToDict (alice "Al" morning)) noon
      morning "north" "south" wins loses) ∧
      NotSkipped .sqlite (rowToDict (alice "Alice" noon)) (rowToDict (alice "Al" morning)) "north"
        "south" :=
  (lww_decided_iff ⟨rfl, rfl⟩ ⟨rfl, rfl⟩ "north" "south").2 rfl

/-- The decision is made on every pair of serialised rows. -/
def LwwTotal : Prop :=
  ∀ b b' row local_row d e remote_node_id local_node_id,
    Serialised b row d → Serialised b' local_row e →
      (∃ wins loses, Decides row local_row d e remote_node_id local_node_id wins loses) ∧
        NotSkipped b' row local_row remote_node_id local_node_id

/-- A row from PostgreSQL is not compared with one from SQLite. -/
theorem lww_raises : ¬ LwwTotal := by
  intro h
  obtain ⟨d, hd⟩ := serialised_rowToDict ((alice "Alice" noon).on .postgresql) rfl
  have he : Serialised .sqlite (rowToDict (alice "Al" morning)) morning := ⟨rfl, rfl⟩
  obtain ⟨⟨wins, loses, hdecides⟩, _⟩ := h _ _ _ _ _ _ "north" "south" hd he
  apply not_decides hd he _ hdecides
  intro hb
  cases hb

end ScottyCore
