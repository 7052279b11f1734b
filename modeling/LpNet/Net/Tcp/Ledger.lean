import LpNet.Net.Tcp.Connection
import Mathlib.Logic.Relation

/-!
What a server keeps about its connections, apart from their data.

A ledger lists the connections by the order in which they were accepted, each
with its descriptor and whether it is still open, next to the table, which is
keyed by descriptors alone, and the removals that closed connections have queued.
`Quiet` is what happens to a ledger between accepts and removals: connections
close, and the queue overflows. A ledger is `Consistent` when the table says the
truth, and stays so as long as no accept is handed a descriptor that is still a
key of the table.
-/

namespace LpNet

structure Ledger where
  conns : List (Sockfd × Bool)
  table : FdMap ConnId
  pending : List (Sockfd × ConnId)
  /-- Of each entry that a removal erased, who posted the removal and what was erased. -/
  removed : List (ConnId × ConnId)

namespace Ledger

def close (l : Ledger) (c : ConnId) (fd : Sockfd) : Ledger :=
  { l with conns := l.conns.set c (fd, false), pending := l.pending ++ [(fd, c)] }

/-- A connection is accepted, open or not, and put in the table where its descriptor is new. -/
def accept (l : Ledger) (fd : Sockfd) (opened : Bool) : Ledger :=
  { l with conns := l.conns ++ [(fd, opened)], table := l.table.emplace fd l.conns.length }

def remove (l : Ledger) : Ledger :=
  match l.pending with
  | [] => l
  | (fd, poster) :: rest =>
      { l with table := l.table.erase fd, pending := rest,
               removed := l.removed ++ ((l.table.lookup fd).map fun c => (poster, c)).toList }

/-- A change between accepts and removals. -/
inductive Change : Ledger → Ledger → Prop
  | close {l : Ledger} {c : ConnId} {fd : Sockfd} (h : l.conns[c]? = some (fd, true)) :
      Change l (l.close c fd)
  | overflow (l : Ledger) : Change l { l with pending := [] }

abbrev Quiet : Ledger → Ledger → Prop := Relation.ReflTransGen Change

/-- The table names open connections and those that wait for their removal, each under its
own descriptor. -/
structure Consistent (l : Ledger) : Prop where
  entries : ∀ fd c, l.table.lookup fd = some c → ∃ opened, l.conns[c]? = some (fd, opened)
  stored : ∀ c fd, l.conns[c]? = some (fd, true) → l.table.lookup fd = some c
  waiting : ∀ fd c, (fd, c) ∈ l.pending →
    l.table.lookup fd = some c ∧ l.conns[c]? = some (fd, false)
  once : l.pending.Nodup
  own : ∀ poster c, (poster, c) ∈ l.removed → poster = c

/-- Every connection is in the table. -/
def AllStored (l : Ledger) : Prop :=
  ∀ c fd opened, l.conns[c]? = some (fd, opened) → l.table.lookup fd = some c

def empty : Ledger := ⟨[], ∅, [], []⟩

theorem empty_consistent : empty.Consistent where
  entries := by simp [empty]
  stored := by simp [empty]
  waiting := by simp [empty]
  once := List.nodup_nil
  own := by simp [empty]

variable {l l' : Ledger} {c : ConnId} {fd : Sockfd}

theorem close_conns_of_ne {d : ConnId} (h : d ≠ c) : (l.close c fd).conns[d]? = l.conns[d]? :=
  List.getElem?_set_ne (Ne.symm h)

theorem close_conns_self {opened : Bool} (h : l.conns[c]? = some (fd, opened)) :
    (l.close c fd).conns[c]? = some (fd, false) := by
  obtain ⟨hc, -⟩ := List.getElem?_eq_some_iff.mp h
  exact List.getElem?_set_self hc

theorem Consistent.change (h : l.Consistent) (hchange : Change l l') : l'.Consistent := by
  cases hchange with
  | @close c fd hopen =>
      have hstored := h.stored c fd hopen
      refine ⟨fun fd' d hd => ?_, fun d fd' hd => ?_, fun fd' d hd => ?_, ?_, h.own⟩
      · obtain ⟨opened, hd'⟩ := h.entries fd' d hd
        by_cases hdc : d = c
        · subst hdc
          rw [hopen] at hd'
          injection hd' with hd'
          obtain ⟨rfl, -⟩ := Prod.mk.inj hd'
          exact ⟨false, close_conns_self hopen⟩
        · exact ⟨opened, by rw [close_conns_of_ne hdc]; exact hd'⟩
      · by_cases hdc : d = c
        · subst hdc
          rw [close_conns_self hopen] at hd
          cases hd
        · rw [close_conns_of_ne hdc] at hd
          exact h.stored d fd' hd
      · rcases List.mem_append.mp hd with hold | hnew
        · obtain ⟨hlookup, hclosed⟩ := h.waiting fd' d hold
          refine ⟨hlookup, ?_⟩
          by_cases hdc : d = c
          · subst hdc
            rw [hopen] at hclosed
            cases hclosed
          · rw [close_conns_of_ne hdc]
            exact hclosed
        · -- the connection that closes was open, hence stored
          obtain ⟨rfl, rfl⟩ := Prod.mk.inj (List.mem_singleton.mp hnew)
          exact ⟨hstored, close_conns_self hopen⟩
      · refine List.nodup_append.mpr ⟨h.once, List.nodup_singleton _, fun e he e' he' => ?_⟩
        rw [List.mem_singleton.mp he']
        rintro rfl
        obtain ⟨-, hclosed⟩ := h.waiting fd c he
        rw [hopen] at hclosed
        cases hclosed
  | overflow => exact ⟨h.entries, h.stored, by simp, List.nodup_nil, h.own⟩

theorem Consistent.quiet (h : l.Consistent) (hquiet : Quiet l l') : l'.Consistent := by
  induction hquiet with
  | refl => exact h
  | tail _ hchange ih => exact ih.change hchange

theorem emplace_of_new {m : FdMap ConnId} (h : m.lookup fd = none) (v : ConnId) :
    m.emplace fd v = m.insert fd v := by
  rw [FdMap.emplace, if_neg (AList.lookup_eq_none.mp h)]

theorem emplace_of_old {m : FdMap ConnId} (h : m.lookup fd ≠ none) (v : ConnId) :
    m.emplace fd v = m := by
  rw [FdMap.emplace, if_pos]
  by_contra hnot
  exact h (AList.lookup_eq_none.mpr hnot)

theorem accept_conns_cases {opened : Bool} {d : ConnId} {x : Sockfd × Bool}
    (h : (l.accept fd opened).conns[d]? = some x) :
    l.conns[d]? = some x ∨ d = l.conns.length ∧ x = (fd, opened) := by
  rw [Ledger.accept] at h
  rcases Nat.lt_trichotomy d l.conns.length with hlt | rfl | hgt
  · rw [List.getElem?_append_left hlt] at h
    exact .inl h
  · rw [List.getElem?_concat_length] at h
    injection h with h
    exact .inr ⟨rfl, h.symm⟩
  · rw [List.getElem?_eq_none (by rw [List.length_append]; exact hgt)] at h
    cases h

/-- An accept under a key of the table leaves its connection out of the table. -/
theorem accept_of_old (h : l.table.lookup fd ≠ none) (opened : Bool) :
    l.accept fd opened = { l with conns := l.conns ++ [(fd, opened)] } := by
  rw [Ledger.accept, emplace_of_old h]

/-- An accept under a new key keeps the ledger consistent. -/
theorem Consistent.accept (h : l.Consistent) (hnew : l.table.lookup fd = none) (opened : Bool) :
    (l.accept fd opened).Consistent := by
  have hlookup : ∀ fd', fd' ≠ fd →
      (l.accept fd opened).table.lookup fd' = l.table.lookup fd' := by
    intro fd' hne
    rw [Ledger.accept, emplace_of_new hnew]
    exact AList.lookup_insert_ne hne
  have hself : (l.accept fd opened).table.lookup fd = some l.conns.length := by
    rw [Ledger.accept, emplace_of_new hnew]
    exact AList.lookup_insert _
  have hold : ∀ (d : ConnId) (x : Sockfd × Bool), l.conns[d]? = some x →
      (l.accept fd opened).conns[d]? = some x := by
    intro d x hd
    obtain ⟨hlt, -⟩ := List.getElem?_eq_some_iff.mp hd
    rw [Ledger.accept, List.getElem?_append_left hlt]
    exact hd
  refine ⟨fun fd' d hd => ?_, fun d fd' hd => ?_, fun fd' d hd => ?_, h.once, h.own⟩
  · by_cases hfd : fd' = fd
    · subst hfd
      rw [hself] at hd
      injection hd with hd
      subst hd
      exact ⟨opened, by simp [Ledger.accept]⟩
    · rw [hlookup fd' hfd] at hd
      obtain ⟨opened', hd'⟩ := h.entries fd' d hd
      exact ⟨opened', hold d _ hd'⟩
  · rcases accept_conns_cases hd with hd' | ⟨rfl, hpair⟩
    · have hstored := h.stored d fd' hd'
      rw [hlookup fd' (fun heq => by rw [heq, hnew] at hstored; cases hstored)]
      exact hstored
    · rw [(Prod.mk.inj hpair).1]
      exact hself
  · obtain ⟨hwaiting, hclosed⟩ := h.waiting fd' d hd
    refine ⟨?_, hold d _ hclosed⟩
    rw [hlookup fd' (fun heq => by rw [heq, hnew] at hwaiting; cases hwaiting)]
    exact hwaiting

/-- Performing the first removal changes no connection, and frees its key. -/
theorem remove_of_head {r : Sockfd × ConnId} (h : l.pending.head? = some r) :
    l.remove.conns = l.conns ∧ l.remove.table.lookup r.1 = none := by
  obtain ⟨rest, hpending⟩ := List.head?_eq_some_iff.mp h
  rw [Ledger.remove, hpending]
  exact ⟨rfl, AList.lookup_erase _ _⟩

/-- Performing the first removal keeps the ledger consistent: it erases its own poster. -/
theorem Consistent.remove (h : l.Consistent) : l.remove.Consistent := by
  rw [Ledger.remove]
  cases hpending : l.pending with
  | nil => exact h
  | cons first rest =>
      obtain ⟨fd, poster⟩ := first
      obtain ⟨hfirst, hclosed⟩ := h.waiting fd poster (by rw [hpending]; simp)
      have honce := h.once
      rw [hpending, List.nodup_cons] at honce
      refine ⟨fun fd' d hd => ?_, fun d fd' hd => ?_, fun fd' d hd => ?_, honce.2,
        fun p d hd => ?_⟩
      · by_cases hfd : fd' = fd
        · subst hfd
          rw [AList.lookup_erase] at hd
          cases hd
        · rw [AList.lookup_erase_ne hfd] at hd
          exact h.entries fd' d hd
      · have hstored := h.stored d fd' hd
        -- the erased entry is that of a closed connection
        rw [AList.lookup_erase_ne]
        · exact hstored
        · rintro rfl
          rw [hfirst] at hstored
          injection hstored with hstored
          subst hstored
          dsimp only at hd
          rw [hclosed] at hd
          cases hd
      · obtain ⟨hwaiting, hclosed'⟩ := h.waiting fd' d
          (by rw [hpending]; exact List.mem_cons_of_mem _ hd)
        refine ⟨?_, hclosed'⟩
        rw [AList.lookup_erase_ne]
        · exact hwaiting
        · -- a second removal of the same descriptor would have the same poster
          rintro rfl
          rw [hfirst] at hwaiting
          injection hwaiting with hwaiting
          subst hwaiting
          exact honce.1 hd
      · dsimp only at hd
        rw [hfirst] at hd
        rcases List.mem_append.mp hd with hold | hlast
        · exact h.own p d hold
        · simp only [Option.map_some, Option.toList_some, List.mem_singleton,
            Prod.mk.injEq] at hlast
          exact hlast.1.trans hlast.2.symm

/-- Closing does not take a connection out of the table. -/
theorem AllStored.quiet (h : l.AllStored) (hquiet : Quiet l l') : l'.AllStored := by
  induction hquiet with
  | refl => exact h
  | tail _ hchange ih =>
      cases hchange with
      | @close c fd hopen =>
          intro d fd' opened hd
          by_cases hdc : d = c
          · subst hdc
            rw [close_conns_self hopen] at hd
            injection hd with hd
            rw [← (Prod.mk.inj hd).1]
            exact ih d fd true hopen
          · rw [close_conns_of_ne hdc] at hd
            exact ih d fd' opened hd
      | overflow => exact ih

theorem AllStored.accept (h : l.AllStored) (hnew : l.table.lookup fd = none) (opened : Bool) :
    (l.accept fd opened).AllStored := by
  intro d fd' opened' hd
  rw [Ledger.accept, emplace_of_new hnew]
  rcases accept_conns_cases hd with hd' | ⟨rfl, hpair⟩
  · have hstored := h d fd' opened' hd'
    rw [AList.lookup_insert_ne]
    · exact hstored
    · rintro rfl
      rw [hnew] at hstored
      cases hstored
  · rw [(Prod.mk.inj hpair).1]
    exact AList.lookup_insert _

/-! ### Ledgers of connections that never open -/

/-- No connection is open, no removal is queued, and the table has entries once there are
connections. -/
structure Dormant (l : Ledger) : Prop where
  shut : ∀ (c : ConnId) (fd : Sockfd), l.conns[c]? ≠ some (fd, true)
  pending_eq : l.pending = []
  table_empty_iff : l.table = ∅ ↔ l.conns = []

theorem empty_dormant : empty.Dormant where
  shut := by simp [empty]
  pending_eq := rfl
  table_empty_iff := by simp [empty]

theorem Dormant.quiet (h : l.Dormant) (hquiet : Quiet l l') : l' = l := by
  induction hquiet with
  | refl => rfl
  | tail _ hchange ih =>
      subst ih
      cases hchange with
      | close hopen => exact absurd hopen (h.shut _ _)
      | overflow =>
          rw [← h.pending_eq]

theorem emplace_ne_empty (m : FdMap ConnId) (fd : Sockfd) (v : ConnId) :
    m.emplace fd v ≠ ∅ := by
  intro hempty
  have hmem : fd ∈ m.emplace fd v := by
    rw [FdMap.emplace]
    split
    case isTrue hold => exact hold
    case isFalse => exact (AList.mem_insert _).mpr (.inl rfl)
  rw [hempty] at hmem
  exact AList.notMem_empty fd hmem

theorem Dormant.accept (h : l.Dormant) (fd : Sockfd) : (l.accept fd false).Dormant := by
  refine ⟨fun c fd' hc => ?_, h.pending_eq, iff_of_false (emplace_ne_empty _ _ _) ?_⟩
  · rcases accept_conns_cases hc with hold | ⟨-, hpair⟩
    · exact h.shut c fd' hold
    · cases hpair
  · exact List.append_ne_nil_of_right_ne_nil _ (List.cons_ne_nil _ _)

end Ledger

end LpNet
