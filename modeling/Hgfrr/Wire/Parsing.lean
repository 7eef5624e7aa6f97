import Hgfrr.Wire.RoundTrip

/-!
# What the parsers accept

A datagram has a documented form. Texts of that form are read back as they were
meant, except for a last sent id of one character. Other texts are not told apart:
they end in an exception or are handled as if they were datagrams, unless the
gossip protocol takes them for one without hops left.
-/

namespace Hgfrr

open Decimal

/-- The fields of a datagram of the ring protocol, numbers with the texts they are
written as. -/
structure RingDatagram where
  senderId : Str
  receiverId : Str
  broadcastId : Str
  messageId : Str
  typeText : Str
  type : ℤ
  fromLevelText : Str
  fromLevel : ℤ
  orderText : Str
  order : ℤ
  sentIds : List Str
  data : Str

/-- A number of type `int`, written in decimal. -/
def IntText (text : Str) (z : ℤ) : Prop := Numeral text z ∧ FitsInt z

theorem IntText.stoi {text : Str} {z : ℤ} (h : IntText text z) : stoi text = .ok z := by
  rw [Hgfrr.stoi, scanInt_of_numeral h.1]
  exact if_pos h.2

theorem IntText.comma_not_mem {text : Str} {z : ℤ} (h : IntText text z) : ',' ∉ text := by
  intro hcomma
  have hkinds := mem_of_numeral h.1 hcomma
  simp at hkinds

namespace RingDatagram

variable (datagram : RingDatagram)

/-- Seven fields that end in a comma, the sent ids, a bar and the data. -/
def text : Str :=
  datagram.senderId ++ ',' :: (datagram.receiverId ++ ',' :: (datagram.broadcastId ++ ',' ::
    (datagram.messageId ++ ',' :: (datagram.typeText ++ ',' :: (datagram.fromLevelText ++ ',' ::
      (datagram.orderText ++ ',' :: (PeerManager.sentIdsString datagram.sentIds ++ '|' ::
        datagram.data)))))))

/-- The fields are as documented. -/
structure Formed : Prop where
  senderId : ',' ∉ datagram.senderId
  receiverId : ',' ∉ datagram.receiverId
  broadcastId : ',' ∉ datagram.broadcastId
  messageId : ',' ∉ datagram.messageId
  type : IntText datagram.typeText datagram.type
  fromLevel : IntText datagram.fromLevelText datagram.fromLevel
  order : IntText datagram.orderText datagram.order
  sentIds : ∀ sentId ∈ datagram.sentIds, sentId ≠ [] ∧ ',' ∉ sentId ∧ '|' ∉ sentId

/-- The message of a datagram. -/
def message : Message :=
  (Message.mkHgfrr datagram.broadcastId datagram.messageId datagram.type (ulong datagram.fromLevel)
    datagram.senderId datagram.receiverId).setNodeOrder datagram.order

/-- The last sent id has more than one character, or is among the others too. -/
def KeepsLast : Prop :=
  ∀ last ∈ datagram.sentIds.getLast?, last.length ≠ 1 ∨ last ∈ datagram.sentIds.dropLast

variable {datagram}

/-- What is read of a datagram of the documented form. -/
theorem Formed.parse (h : datagram.Formed) :
    ∃ parsed, parseDatagram datagram.text = .ok (datagram.message, datagram.data, parsed) ∧
      ∀ sentId, sentId ∈ parsed ↔ sentId ∈ datagram.sentIds.dropLast ∨
        (sentId ∈ datagram.sentIds.getLast? ∧ sentId.length ≠ 1) := by
  have hlist : ∃ parsed, parseSentIds (PeerManager.sentIdsString datagram.sentIds) = .ok parsed ∧
      ∀ sentId, sentId ∈ parsed ↔ sentId ∈ datagram.sentIds.dropLast ∨
        (sentId ∈ datagram.sentIds.getLast? ∧ sentId.length ≠ 1) := by
    have hsentIds := h.sentIds
    rcases List.eq_nil_or_concat' datagram.sentIds with hnil | ⟨front, last, hlast⟩
    · rw [hnil]
      exact ⟨[], rfl, by simp⟩
    · rw [hlast] at hsentIds ⊢
      obtain ⟨parsed, hparsed, hmem⟩ := parseSentIds_append
        (fun sentId hsentId => (hsentIds sentId hsentId).2.1) (hsentIds last (by simp)).1
      refine ⟨parsed, hparsed, fun sentId => ?_⟩
      rw [hmem, List.dropLast_concat, List.getLast?_concat, Option.mem_some_iff]
      refine or_congr_right ⟨?_, ?_⟩
      · rintro ⟨rfl, hlength⟩
        exact ⟨rfl, hlength⟩
      · rintro ⟨rfl, hlength⟩
        exact ⟨rfl, hlength⟩
  obtain ⟨parsed, hparsed, hmem⟩ := hlist
  refine ⟨parsed, ?_, hmem⟩
  have hbar := bar_not_mem_sentIdsString fun sentId hsentId => (h.sentIds sentId hsentId).2.2
  rw [text, parseDatagram_fields h.senderId h.receiverId h.broadcastId h.messageId
    h.type.comma_not_mem h.fromLevel.comma_not_mem h.order.comma_not_mem hbar, h.type.stoi,
    h.fromLevel.stoi, h.order.stoi, hparsed]
  rfl

end RingDatagram

/-- The ring protocol reads a text for what it is, or rejects it. -/
def ReadExactly (data : Str) : Prop :=
  (∀ datagram : RingDatagram, datagram.Formed → data = datagram.text →
    ∃ parsed, parseDatagram data = .ok (datagram.message, datagram.data, parsed) ∧
      ∀ sentId, sentId ∈ parsed ↔ sentId ∈ datagram.sentIds) ∧
  ((∀ datagram : RingDatagram, datagram.Formed → data ≠ datagram.text) →
    ∀ (pm : PeerManager) (now : ℤ) (rand : ℕ), pm.receive now rand data = (pm, Emission.done))

/-- No text is rejected by a peer manager with an empty log. -/
theorem receive_ne_rejected (pm : PeerManager) (hlog : pm.msgTable.table = []) (now : ℤ)
    (rand : ℕ) (data : Str) : pm.receive now rand data ≠ (pm, Emission.done) := by
  intro h
  unfold PeerManager.receive at h
  split at h
  next =>
    have hfailure := congrArg (fun result => result.2.failure) h
    cases hfailure
  next =>
    have htable := congrArg (fun result => result.1.msgTable.table) h
    simp [MessageTable.insertReceived, MessageTable.set, hlog] at htable

/-- A text is read exactly if it has the documented form and its last sent id is
kept. -/
theorem readExactly_iff (data : Str) : ReadExactly data ↔
    (∃ datagram : RingDatagram, datagram.Formed ∧ data = datagram.text) ∧
      ∀ datagram : RingDatagram, datagram.Formed → data = datagram.text → datagram.KeepsLast := by
  constructor
  · rintro ⟨hread, hreject⟩
    refine ⟨?_, fun datagram hformed heq last hlast => ?_⟩
    · by_contra hnone
      exact receive_ne_rejected ⟨⟨[], [], 0⟩, ⟨[], []⟩, ⟨[]⟩, []⟩ rfl 0 0 data
        (hreject (fun datagram hformed heq => hnone ⟨datagram, hformed, heq⟩) _ 0 0)
    · obtain ⟨parsed, hparsed, hmem⟩ := hread datagram hformed heq
      obtain ⟨parsed', hparsed', hmem'⟩ := hformed.parse
      rw [heq, hparsed', Except.ok.injEq, Prod.mk.injEq, Prod.mk.injEq] at hparsed
      obtain ⟨-, -, rfl⟩ := hparsed
      rcases (hmem' last).mp ((hmem last).mpr (List.mem_of_getLast? hlast)) with hothers | hlong
      · exact Or.inr hothers
      · exact Or.inl hlong.2
  · rintro ⟨⟨datagram, hformed, heq⟩, hkeeps⟩
    refine ⟨fun other hother hsame => ?_, fun hnone => absurd heq (hnone datagram hformed)⟩
    obtain ⟨parsed, hparsed, hmem⟩ := hother.parse
    refine ⟨parsed, hsame ▸ hparsed, fun sentId => ?_⟩
    rw [hmem]
    constructor
    · rintro (hothers | ⟨hlast, -⟩)
      · exact List.mem_of_mem_dropLast hothers
      · exact List.mem_of_getLast? hlast
    · intro hsentId
      rcases List.eq_nil_or_concat' other.sentIds with hnil | ⟨front, last, hlist⟩
      · simp [hnil] at hsentId
      · have hkept := hkeeps other hother hsame last (by simp [hlist])
        rw [hlist] at hsentId hkept ⊢
        simp only [List.mem_append, List.mem_singleton, List.dropLast_concat,
          List.getLast?_concat, Option.mem_some_iff] at hsentId hkept ⊢
        rcases hsentId with hfront | rfl
        · exact Or.inl hfront
        · exact hkept.symm.imp_right fun hlength => ⟨rfl, hlength⟩

/-! ## The gossip protocol -/

/-- The fields of a datagram of the gossip protocol. -/
structure GossipDatagram where
  senderId : Str
  receiverId : Str
  broadcastId : Str
  messageId : Str
  typeText : Str
  type : ℤ
  ttlText : Str
  ttl : ℤ
  data : Str

namespace GossipDatagram

variable (datagram : GossipDatagram)

/-- Six fields that end in a comma, and the data. -/
def text : Str :=
  datagram.senderId ++ ',' :: (datagram.receiverId ++ ',' :: (datagram.broadcastId ++ ',' ::
    (datagram.messageId ++ ',' :: (datagram.typeText ++ ',' :: (datagram.ttlText ++ ',' ::
      datagram.data)))))

structure Formed : Prop where
  senderId : ',' ∉ datagram.senderId
  receiverId : ',' ∉ datagram.receiverId
  broadcastId : ',' ∉ datagram.broadcastId
  messageId : ',' ∉ datagram.messageId
  type : IntText datagram.typeText datagram.type
  ttl : IntText datagram.ttlText datagram.ttl

def message : Message :=
  ((Message.mkEth datagram.broadcastId datagram.messageId datagram.senderId
    datagram.receiverId).setTTL datagram.ttl).setType datagram.type

variable {datagram}

/-- In push mode a datagram without hops left is dropped by design. -/
theorem Formed.read (h : datagram.Formed) (mode : GossipMode) :
    readDatagramETH mode datagram.text = .ok (if datagram.ttlText = ['0'] ∧ mode = .push then none
      else some (datagram.message, datagram.data)) := by
  rw [readDatagramETH, text, parseDatagramETH_fields h.senderId h.receiverId h.broadcastId
    h.messageId h.type.comma_not_mem h.ttl.comma_not_mem, h.type.stoi]
  simp only [bind, Except.bind, pure, Except.pure, h.ttl.stoi]
  split <;> rfl

end GossipDatagram

/-- The gossip protocol reads a text for what it is, or rejects it. -/
def ReadExactlyETH (mode : GossipMode) (data : Str) : Prop :=
  (∀ datagram : GossipDatagram, datagram.Formed → data = datagram.text →
    readDatagramETH mode data = .ok (if datagram.ttlText = ['0'] ∧ mode = .push then none
      else some (datagram.message, datagram.data))) ∧
  ((∀ datagram : GossipDatagram, datagram.Formed → data ≠ datagram.text) →
    ∀ (pm : PeerManagerETH) (hash : Str → ℕ) (now : ℤ) (draws : List ℕ) (ip : Str) (port : ℕ),
      pm.mode = mode → pm.receive hash now draws ip port data = (pm, Emission.done))

/-- The reader drops a text that seems to have no hops left, whatever else it
is. -/
theorem readDatagramETH_none_iff {mode : GossipMode} {data : Str} :
    readDatagramETH mode data = .ok none ↔
      mode = .push ∧ (∃ type, stoi (fieldAt data 4) = .ok type) ∧ fieldAt data 5 = ['0'] := by
  obtain ⟨rest, hparse⟩ := parseDatagramETH_eq data
  rw [readDatagramETH, hparse]
  cases htype : stoi (fieldAt data 4) with
  | error fault => simp [bind, Except.bind]
  | ok type =>
      simp only [bind, Except.bind, pure, Except.pure]
      split
      next hdropped => simp [hdropped]
      next hkept =>
        cases stoi (fieldAt data 5) with
        | error fault =>
            simp only [reduceCtorEq, Except.ok.injEq, exists_eq', true_and, false_iff]
            tauto
        | ok ttl =>
            simp only [Except.ok.injEq, reduceCtorEq, exists_eq', true_and, false_iff]
            tauto

/-- A gossip peer manager with an empty log rejects only what its reader drops. -/
theorem readDatagramETH_of_rejected (pm : PeerManagerETH) (hlog : pm.msgTable.table = [])
    {hash : Str → ℕ} {now : ℤ} {draws : List ℕ} {ip : Str} {port : ℕ} {data : Str}
    (h : pm.receive hash now draws ip port data = (pm, Emission.done)) :
    readDatagramETH pm.mode data = .ok none := by
  unfold PeerManagerETH.receive at h
  split at h
  next =>
    have hfailure := congrArg (fun result => result.2.failure) h
    cases hfailure
  next hnone => exact hnone
  next msg dataInMsg _ =>
    have hlogged := (PeerManagerETH.onReceive_sameNode
      { pm with msgTable := pm.msgTable.insertReceived now msg } hash draws msg dataInMsg ip
      port).msgTable
    dsimp only at h
    rw [h] at hlogged
    have htable := congrArg MessageTable.table hlogged
    simp [MessageTable.insertReceived, MessageTable.set, hlog] at htable

theorem readExactlyETH_iff (mode : GossipMode) (data : Str) : ReadExactlyETH mode data ↔
    (∃ datagram : GossipDatagram, datagram.Formed ∧ data = datagram.text) ∨
      (mode = .push ∧ (∃ type, stoi (fieldAt data 4) = .ok type) ∧ fieldAt data 5 = ['0']) := by
  rw [← readDatagramETH_none_iff]
  constructor
  · rintro ⟨-, hreject⟩
    refine or_iff_not_imp_left.mpr fun hnone => ?_
    exact readDatagramETH_of_rejected ⟨⟨[], [], 0⟩, [], ⟨[]⟩, [], [], mode, []⟩ rfl
      (hreject (fun datagram hformed heq => hnone ⟨datagram, hformed, heq⟩) _ List.length 0 [] []
        0 rfl)
  · intro h
    refine ⟨fun datagram hformed heq => heq ▸ hformed.read mode, fun hnone pm hash now draws ip
      port hmode => ?_⟩
    rcases h with ⟨datagram, hformed, heq⟩ | hdropped
    · exact absurd heq (hnone datagram hformed)
    · rw [PeerManagerETH.receive, hmode, hdropped]

/-- When the two parsers read a text exactly. -/
theorem datagrams_read_exactly_iff (mode : GossipMode) (data : Str) :
    (ReadExactly data ↔
      (∃ datagram : RingDatagram, datagram.Formed ∧ data = datagram.text) ∧
        ∀ datagram : RingDatagram, datagram.Formed → data = datagram.text → datagram.KeepsLast) ∧
    (ReadExactlyETH mode data ↔
      (∃ datagram : GossipDatagram, datagram.Formed ∧ data = datagram.text) ∨
        (mode = .push ∧ (∃ type, stoi (fieldAt data 4) = .ok type) ∧ fieldAt data 5 = ['0'])) :=
  ⟨readExactly_iff data, readExactlyETH_iff mode data⟩

/-- A text without commas and digits ends in an exception of `std::stoi`, for both
protocols. -/
theorem datagrams_not_read_exactly :
    ¬((∀ data, ReadExactly data) ∧ ∀ mode data, ReadExactlyETH mode data) := by
  intro h
  have hnone : ∀ datagram : RingDatagram, datagram.Formed → "x".toList ≠ datagram.text := by
    intro datagram _ heq
    have hcomma : ',' ∈ datagram.text := by simp [RingDatagram.text]
    rw [← heq] at hcomma
    exact absurd hcomma (by decide)
  have hrejected := (h.1 "x".toList).2 hnone ⟨⟨[], [], 0⟩, ⟨[], []⟩, ⟨[]⟩, []⟩ 0 0
  have hthrown : (PeerManager.receive ⟨⟨[], [], 0⟩, ⟨[], []⟩, ⟨[]⟩, []⟩ 0 0 "x".toList).2.failure =
      some .invalidArgument := by decide
  rw [hrejected] at hthrown
  cases hthrown

end Hgfrr
