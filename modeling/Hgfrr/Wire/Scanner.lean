import Hgfrr.Model.PeerManagerEth

/-!
# Reading datagrams

Both parsers take the fields off a datagram one comma at a time. Where no comma
is left they take the rest, and start over at the front of the text.
-/

namespace Hgfrr

/-- What is left to read of a text. -/
def Cursor (data : Str) (posEnd : Option ℕ) (rest : Str) : Prop :=
  ∃ front, data = front ++ rest ∧ afterPos posEnd = front.length

section Fields

variable {data field rest : Str} {posEnd : Option ℕ} {c : Char}

theorem cursor_start (data : Str) : Cursor data none data := ⟨[], rfl, rfl⟩

theorem find_append (front rest : Str) (hfield : c ∉ field) :
    find (front ++ (field ++ c :: rest)) c front.length = some (front.length + field.length) := by
  have hidx : (field ++ c :: rest).idxOf? c = some field.length := by
    induction field with
    | nil => simp [List.idxOf?_cons]
    | cons a field ih =>
        obtain ⟨hne, hfield⟩ := not_or.mp (mt List.mem_cons.mpr hfield)
        rw [List.cons_append, List.idxOf?_cons, if_neg (by simpa using Ne.symm hne), ih hfield]
        rfl
  rw [find, List.drop_left, hidx]
  rfl

theorem find_none {front : Str} (hrest : c ∉ rest) :
    find (front ++ rest) c front.length = none := by
  rw [find, List.drop_left, List.idxOf?_eq_none_iff.mpr hrest]
  rfl

theorem Cursor.substrFrom (h : Cursor data posEnd rest) :
    substrFrom data (afterPos posEnd) = .ok rest := by
  obtain ⟨front, rfl, hpos⟩ := h
  rw [hpos, Hgfrr.substrFrom, if_pos (by simp), List.drop_left]

/-- The next field ends at the next comma. -/
theorem Cursor.readField (h : Cursor data posEnd (field ++ ',' :: rest)) (hfield : ',' ∉ field) :
    ∃ next, readField data posEnd = .ok (field, next) ∧ Cursor data next rest := by
  obtain ⟨front, rfl, hpos⟩ := h
  refine ⟨some (front.length + field.length), ?_, front ++ (field ++ [',']), by simp, ?_⟩
  · simp only [Hgfrr.readField, hpos, find_append _ _ hfield, segment]
    rw [substr_of_le (by simp), List.drop_left, Nat.add_sub_cancel_left, List.take_left]
    rfl
  · simp [afterPos, add_assoc]

/-- Without a comma the field is all that is left, and the next one starts at the
front. -/
theorem Cursor.readField_last (h : Cursor data posEnd rest) (hrest : ',' ∉ rest) :
    Hgfrr.readField data posEnd = .ok (rest, none) := by
  obtain ⟨front, rfl, hpos⟩ := h
  have hsegment : segment (front ++ rest) front.length none = .ok rest := by
    rw [segment, Hgfrr.substrFrom, if_pos (by simp), List.drop_left]
  simp only [Hgfrr.readField, hpos, find_none hrest, hsegment]
  rfl

end Fields

/-! ## The fields of any text -/

/-- The segments of a text between commas. -/
def segments (data : Str) : List Str := data.splitOn ','

/-- Field number `j`, where the segments are read round and round. -/
def fieldAt (data : Str) (j : ℕ) : Str := (segments data).getD (j % (segments data).length) []

/-- The next field to read is field number `j`. -/
def AtField (data : Str) (posEnd : Option ℕ) (j : ℕ) : Prop :=
  ∃ rest, Cursor data posEnd rest ∧
    segments rest = (segments data).drop (j % (segments data).length)

section AnyText

variable {data field rest : Str} {posEnd : Option ℕ} {j : ℕ}

theorem segments_append (hfield : ',' ∉ field) (rest : Str) :
    segments (field ++ ',' :: rest) = field :: segments rest :=
  List.splitOn_append_cons_self_of_not_mem hfield rest

theorem segments_of_not_mem (hfield : ',' ∉ field) : segments field = [field] :=
  List.splitOn_eq_singleton hfield

theorem length_segments_pos (data : Str) : 0 < (segments data).length :=
  List.length_pos_of_ne_nil (List.splitOn_ne_nil ',' data)

theorem atField_start (data : Str) : AtField data none 0 :=
  ⟨data, cursor_start data, by simp⟩

/-- A scanner reads the segments in order, and goes back to the first one after
the last. -/
theorem AtField.readField (h : AtField data posEnd j) :
    ∃ next, readField data posEnd = .ok (fieldAt data j, next) ∧ AtField data next (j + 1) := by
  obtain ⟨rest, hcursor, hsplit⟩ := h
  have hpos := length_segments_pos data
  have hlt := Nat.mod_lt j hpos
  have hlength := congrArg List.length hsplit
  have hhead := congrArg List.head? hsplit
  rw [List.head?_drop] at hhead
  rw [List.length_drop] at hlength
  have hfield {first : Str} {others : List Str} (hfirst : segments rest = first :: others) :
      fieldAt data j = first := by
    rw [fieldAt, List.getD_eq_getElem?_getD, ← hhead, hfirst]
    rfl
  by_cases hcomma : ',' ∈ rest
  · obtain ⟨first, others, rfl, hfirst⟩ := List.eq_append_cons_of_mem hcomma
    obtain ⟨next, hread, hnext⟩ := hcursor.readField hfirst
    have hsegments := segments_append hfirst others
    refine ⟨next, by rw [hread, hfield hsegments], others, hnext, ?_⟩
    have hothers := length_segments_pos others
    rw [hsegments, List.length_cons] at hlength
    have hmod : (j + 1) % (segments data).length = j % (segments data).length + 1 := by
      rw [Nat.add_mod, Nat.mod_eq_of_lt (by omega : 1 < _), Nat.mod_eq_of_lt (by omega)]
    rw [hmod, ← List.drop_drop, ← hsplit, hsegments]
    rfl
  · have hsegments := segments_of_not_mem hcomma
    refine ⟨none, by rw [hcursor.readField_last hcomma, hfield hsegments], data, cursor_start data,
      ?_⟩
    rw [hsegments, List.length_singleton] at hlength
    have hmod : (j + 1) % (segments data).length = 0 := by
      have hdiv := Nat.div_add_mod j (segments data).length
      have hround : j + 1 = (segments data).length * (j / (segments data).length + 1) := by
        rw [mul_add]
        omega
      rw [hround, Nat.mul_mod_right]
    rw [hmod, List.drop_zero]

/-- The fourth field of a text with four commas or more. -/
theorem fieldAt_three {first second third fourth : Str} (hfirst : ',' ∉ first)
    (hsecond : ',' ∉ second) (hthird : ',' ∉ third) (hfourth : ',' ∉ fourth) (rest : Str) :
    fieldAt (first ++ ',' :: (second ++ ',' :: (third ++ ',' :: (fourth ++ ',' :: rest)))) 3 =
      fourth := by
  have hsegments := segments_append hfirst
    (second ++ ',' :: (third ++ ',' :: (fourth ++ ',' :: rest)))
  rw [segments_append hsecond, segments_append hthird, segments_append hfourth] at hsegments
  rw [fieldAt, hsegments, Nat.mod_eq_of_lt (by simp)]
  rfl

/-- What the gossip parser reads of any text. Only reading the type may fail. -/
theorem parseDatagramETH_eq (data : Str) : ∃ rest, parseDatagramETH data = do
    let type ← stoi (fieldAt data 4)
    return ⟨fieldAt data 0, fieldAt data 1, fieldAt data 2, fieldAt data 3, type, fieldAt data 5,
      rest⟩ := by
  obtain ⟨next₁, hfield₁, hat⟩ := (atField_start data).readField
  obtain ⟨next₂, hfield₂, hat⟩ := hat.readField
  obtain ⟨next₃, hfield₃, hat⟩ := hat.readField
  obtain ⟨next₄, hfield₄, hat⟩ := hat.readField
  obtain ⟨next₅, hfield₅, hat⟩ := hat.readField
  obtain ⟨next₆, hfield₆, hat⟩ := hat.readField
  obtain ⟨rest, hcursor, -⟩ := hat
  refine ⟨rest, ?_⟩
  simp only [parseDatagramETH, hfield₁, hfield₂, hfield₃, hfield₄, hfield₅, hfield₆,
    hcursor.substrFrom, bind, Except.bind]

/-- What the ring parser makes of a text that it accepts. -/
theorem parseDatagram_fieldAt {text : Str} {msg : Message} {sentIds : List Str}
    (h : parseDatagram text = .ok (msg, data, sentIds)) : ∃ type level order,
    stoi (fieldAt text 4) = .ok type ∧ stoi (fieldAt text 5) = .ok level ∧
      stoi (fieldAt text 6) = .ok order ∧
      msg = (Message.mkHgfrr (fieldAt text 2) (fieldAt text 3) type (ulong level) (fieldAt text 0)
        (fieldAt text 1)).setNodeOrder order := by
  obtain ⟨next₁, hfield₁, hat⟩ := (atField_start text).readField
  obtain ⟨next₂, hfield₂, hat⟩ := hat.readField
  obtain ⟨next₃, hfield₃, hat⟩ := hat.readField
  obtain ⟨next₄, hfield₄, hat⟩ := hat.readField
  obtain ⟨next₅, hfield₅, hat⟩ := hat.readField
  obtain ⟨next₆, hfield₆, hat⟩ := hat.readField
  obtain ⟨next₇, hfield₇, hat⟩ := hat.readField
  simp only [parseDatagram, hfield₁, hfield₂, hfield₃, hfield₄, hfield₅, hfield₆, hfield₇,
    Except.ok_bind] at h
  obtain ⟨type, htype, h⟩ := Except.bind_eq_ok.mp h
  obtain ⟨level, hlevel, h⟩ := Except.bind_eq_ok.mp h
  obtain ⟨order, horder, h⟩ := Except.bind_eq_ok.mp h
  obtain ⟨_, _, h⟩ := Except.bind_eq_ok.mp h
  obtain ⟨_, _, h⟩ := Except.bind_eq_ok.mp h
  obtain ⟨_, _, h⟩ := Except.bind_eq_ok.mp h
  exact ⟨type, level, order, htype, hlevel, horder, (Prod.mk.inj (Except.ok.inj h)).1.symm⟩

end AnyText

/-! ## Texts with all their commas -/

section Formed

variable {senderId receiverId broadcastId messageId type fromLevel order ttl list : Str}

/-- The ring parser on a text with seven fields, a list and a bar. -/
theorem parseDatagram_fields (hsender : ',' ∉ senderId) (hreceiver : ',' ∉ receiverId)
    (hbroadcast : ',' ∉ broadcastId) (hmessage : ',' ∉ messageId) (htype : ',' ∉ type)
    (hlevel : ',' ∉ fromLevel) (horder : ',' ∉ order) (hlist : '|' ∉ list) (data : Str) :
    parseDatagram (senderId ++ ',' :: (receiverId ++ ',' :: (broadcastId ++ ',' ::
        (messageId ++ ',' :: (type ++ ',' :: (fromLevel ++ ',' :: (order ++ ',' ::
          (list ++ '|' :: data)))))))) = do
      let type ← stoi type
      let fromLevel ← stoi fromLevel
      let order ← stoi order
      let sentIds ← parseSentIds list
      return ((Message.mkHgfrr broadcastId messageId type (ulong fromLevel) senderId
        receiverId).setNodeOrder order, data, sentIds) := by
  generalize htext : senderId ++ ',' :: (receiverId ++ ',' :: (broadcastId ++ ',' ::
    (messageId ++ ',' :: (type ++ ',' :: (fromLevel ++ ',' :: (order ++ ',' ::
      (list ++ '|' :: data))))))) = text
  have hcursor := cursor_start text
  nth_rewrite 2 [← htext] at hcursor
  obtain ⟨next₁, hfield₁, hcursor⟩ := hcursor.readField hsender
  obtain ⟨next₂, hfield₂, hcursor⟩ := hcursor.readField hreceiver
  obtain ⟨next₃, hfield₃, hcursor⟩ := hcursor.readField hbroadcast
  obtain ⟨next₄, hfield₄, hcursor⟩ := hcursor.readField hmessage
  obtain ⟨next₅, hfield₅, hcursor⟩ := hcursor.readField htype
  obtain ⟨next₆, hfield₆, hcursor⟩ := hcursor.readField hlevel
  obtain ⟨next₇, hfield₇, hcursor⟩ := hcursor.readField horder
  have hbar : find (list ++ '|' :: data) '|' 0 = some list.length := by
    simpa using find_append [] data hlist
  have hsegment : segment (list ++ '|' :: data) 0 (some list.length) = .ok list := by
    rw [segment, substr_of_le (Nat.zero_le _), List.drop_zero, Nat.sub_zero, List.take_left]
  have hdata : (list ++ '|' :: data).drop (afterPos (some list.length)) = data := by
    rw [afterPos, ← List.singleton_append, ← List.append_assoc]
    exact List.drop_left' (by simp)
  simp only [parseDatagram, hfield₁, hfield₂, hfield₃, hfield₄, hfield₅, hfield₆, hfield₇,
    hcursor.substrFrom, hbar, hsegment, hdata, bind, Except.bind]

/-- The gossip parser on a text with six fields. -/
theorem parseDatagramETH_fields (hsender : ',' ∉ senderId) (hreceiver : ',' ∉ receiverId)
    (hbroadcast : ',' ∉ broadcastId) (hmessage : ',' ∉ messageId) (htype : ',' ∉ type)
    (httl : ',' ∉ ttl) (data : Str) :
    parseDatagramETH (senderId ++ ',' :: (receiverId ++ ',' :: (broadcastId ++ ',' ::
        (messageId ++ ',' :: (type ++ ',' :: (ttl ++ ',' :: data)))))) = do
      let type ← stoi type
      return ⟨senderId, receiverId, broadcastId, messageId, type, ttl, data⟩ := by
  generalize htext : senderId ++ ',' :: (receiverId ++ ',' :: (broadcastId ++ ',' ::
    (messageId ++ ',' :: (type ++ ',' :: (ttl ++ ',' :: data))))) = text
  have hcursor := cursor_start text
  nth_rewrite 2 [← htext] at hcursor
  obtain ⟨next₁, hfield₁, hcursor⟩ := hcursor.readField hsender
  obtain ⟨next₂, hfield₂, hcursor⟩ := hcursor.readField hreceiver
  obtain ⟨next₃, hfield₃, hcursor⟩ := hcursor.readField hbroadcast
  obtain ⟨next₄, hfield₄, hcursor⟩ := hcursor.readField hmessage
  obtain ⟨next₅, hfield₅, hcursor⟩ := hcursor.readField htype
  obtain ⟨next₆, hfield₆, hcursor⟩ := hcursor.readField httl
  simp only [parseDatagramETH, hfield₁, hfield₂, hfield₃, hfield₄, hfield₅, hfield₆,
    hcursor.substrFrom, bind, Except.bind]

theorem comma_not_mem_setw (width n : ℕ) : ',' ∉ setw width n := fun h => by
  have := Decimal.isDigit_of_mem_padded h
  simp at this

theorem PeerManager.comma_not_mem_nextMessageId {pm : PeerManager} (hsender : ',' ∉ pm.node.id) :
    ',' ∉ pm.nextMessageId := by
  intro h
  rcases List.mem_append.mp h with h | h
  · exact hsender h
  · exact comma_not_mem_setw _ _ h

theorem PeerManagerETH.comma_not_mem_nextMessageId {pm : PeerManagerETH}
    (hsender : ',' ∉ pm.node.id) : ',' ∉ pm.nextMessageId := by
  intro h
  rcases List.mem_append.mp h with h | h
  · exact hsender h
  · exact comma_not_mem_setw _ _ h

end Formed

end Hgfrr
