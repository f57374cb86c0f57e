import Mathlib.Tactic.Common
import GplugMini.Library.DnsMessage

/- The name server of the setup network: one turn of its loop, and what a client that reads
   whole messages makes of the reply. -/
namespace GplugCaptiveDns
open ByteText DnsMessage

def bufSize : Nat := 512

structure Address where
  octets : Bytes
  four : octets.length = 4

structure Buffer where
  bytes : Bytes
  size : bytes.length = bufSize

def answer : Bytes := [0xC0, 0x0C, 0x00, 0x01, 0x00, 0x01, 0x00, 0x00, 0x00, 0x3C, 0x00, 0x04]

/-- QR and AA set, one answer, no authority and no additional records. -/
def patchHeader (buf : Bytes) : Bytes :=
  poke (poke (poke (poke buf 2 [0x84, 0x00]) 6 [0x00, 0x01]) 8 [0x00, 0x00]) 10 [0x00, 0x00]

/-- One turn: a datagram, cut to the buffer, or none when recvfrom failed; the buffer it leaves
    and the reply it sends. A write past the end would lengthen the buffer. -/
def dnsHijack (self : Address) (buf : Bytes) (received : Option Bytes) : Bytes × Option Bytes :=
  match received with
  | none => (buf, none)
  | some datagram =>
      let n := (datagram.take bufSize).length
      let buf := poke buf 0 (datagram.take bufSize)
      if n < 12 then (buf, none)
      else
        let buf := patchHeader buf
        if bufSize < n + 16 then (buf, none)
        else
          let buf := poke (poke buf n answer) (n + answer.length) self.octets
          (buf, some (buf.take (n + answer.length + 4)))

/-- A well-formed query for the address of one name. -/
structure Query where
  bytes : Bytes
  message : Message
  short : bytes.length ≤ 496
  parsed : parse bytes = some message
  asks : message.isResponse = false
  name : List Bytes
  question : message.questions = [⟨name, 1, 1⟩]
  alone : message.answers = [] ∧ message.authority = []

/-- The reply as a client has to find it. -/
structure Answers (own : Address) (q : Query) (reply : Bytes) : Prop where
  read : ∃ r ttl, parse reply = some r ∧ r.isResponse = true ∧ r.id = q.message.id ∧
    r.questions = q.message.questions ∧ r.answers = [⟨q.name, 1, 1, ttl, own.octets⟩] ∧
    r.authority = [] ∧ r.additional = []

def Answered (own : Address) (buf : Buffer) (q : Query) : Prop :=
  (∃ reply, (dnsHijack own buf.bytes (some q.bytes)).2 = some reply ∧ Answers own q reply) ∧
    (dnsHijack own buf.bytes (some q.bytes)).1.length = bufSize

theorem patch_header_length {buf : Bytes} (header : 12 ≤ buf.length) :
    (patchHeader buf).length = buf.length := by
  have step {b : Bytes} (size : b.length = buf.length) {offset : Nat} (inside : offset ≤ 10)
      (x y : UInt8) : (poke b offset [x, y]).length = buf.length := by
    rw [poke_length, size]
    rw [size]
    simp only [List.length_cons, List.length_nil]
    omega
  exact step (step (step (step rfl (by omega) _ _) (by omega) _ _) (by omega) _ _) (by omega) _ _

/-- Whatever arrives, no write leaves the buffer. -/
theorem hijack_stays_inside (own : Address) (buf : Buffer) (received : Option Bytes) :
    (dnsHijack own buf.bytes received).1.length = bufSize := by
  have size := buf.size
  cases received with
  | none => exact size
  | some datagram =>
    have fits : (datagram.take bufSize).length ≤ bufSize := List.length_take_le _ _
    have received : (poke buf.bytes 0 (datagram.take bufSize)).length = bufSize := by
      rw [poke_length, size]
      omega
    simp only [dnsHijack]
    split
    · exact received
    · have patched : (patchHeader (poke buf.bytes 0 (datagram.take bufSize))).length = bufSize := by
        rw [patch_header_length, received]
        rw [received]
        decide
      split
      · exact patched
      · have head : answer.length = 12 := rfl
        have four := own.four
        rw [poke_length, poke_length, patched]
        · omega
        · rw [poke_length] <;> omega

theorem parsed_header {m : Bytes} {message : Message} (parsed : parse m = some message) :
    headerSize ≤ m.length := by
  obtain ⟨_, _, _, _, _, _, _, sections⟩ := parse_some parsed
  have last := sections.counts.2.2.2
  simp only [u16, Option.bind_eq_bind, Option.bind_eq_some_iff] at last
  obtain ⟨_, _, _, byte, _⟩ := last
  exact (List.getElem?_eq_some_iff.mp byte).1

structure Replied (own : Address) (m reply : Bytes) : Prop where
  id : u16 reply 0 = u16 m 0
  flags : u16 reply 2 = some 0x8400
  asked : u16 reply 4 = u16 m 4
  counts : u16 reply 6 = some 1 ∧ u16 reply 8 = some 0 ∧ u16 reply 10 = some 0
  kept : Extends m reply
  size : reply.length = m.length + 16
  answer : reply.drop m.length = answer ++ own.octets

theorem hijack_replied (own : Address) (buf : Buffer) {m : Bytes} (header : headerSize ≤ m.length)
    (short : m.length ≤ 496) :
    ∃ reply, (dnsHijack own buf.bytes (some m)).2 = some reply ∧ Replied own m reply := by
  have size := buf.size
  match m with
  | b0 :: b1 :: b2 :: b3 :: b4 :: b5 :: b6 :: b7 :: b8 :: b9 :: b10 :: b11 :: rest =>
    obtain ⟨head, shape⟩ : ∃ head : Bytes,
        head = [b0, b1, 0x84, 0x00, b4, b5, 0x00, 0x01, 0x00, 0x00, 0x00, 0x00] := ⟨_, rfl⟩
    have four := own.four
    simp only [List.length_cons] at short
    refine ⟨head ++ rest ++ answer ++ own.octets, ?_, ?_⟩
    · let m := b0 :: b1 :: b2 :: b3 :: b4 :: b5 :: b6 :: b7 :: b8 :: b9 :: b10 :: b11 :: rest
      have whole : m.take bufSize = m := List.take_of_length_le (by simp [m, bufSize]; omega)
      have received : poke buf.bytes 0 m = m ++ buf.bytes.drop m.length := by simp [poke]
      have patched : patchHeader (m ++ buf.bytes.drop m.length) =
          (head ++ rest) ++ buf.bytes.drop m.length := by
        rw [shape]
        rfl
      have place : (head ++ rest).length = m.length := by simp [shape, m]
      have count : m.length = rest.length + 12 := by simp [m]
      have joined : (head ++ rest).length + answer.length = (head ++ rest ++ answer).length :=
        List.length_append.symm
      have whole' : (head ++ rest ++ answer).length + 4 =
          (head ++ rest ++ answer ++ own.octets).length := by
        rw [← four]
        exact List.length_append.symm
      change (dnsHijack own buf.bytes (some m)).2 = _
      simp only [dnsHijack, whole, received, patched]
      rw [if_neg (by omega), if_neg (by simp only [bufSize]; omega)]
      simp only
      rw [← place, poke_behind, joined, poke_behind, whole', List.take_left]
    · subst shape
      exact {
        id := rfl
        flags := rfl
        asked := rfl
        counts := ⟨rfl, rfl, rfl⟩
        kept := by
          constructor
          · simp
          · intro i behind inside
            obtain ⟨k, rfl⟩ := Nat.exists_eq_add_of_le' behind
            simp only [headerSize, List.length_cons] at inside ⊢
            simp only [List.cons_append, List.nil_append, List.getElem?_cons_succ,
              List.append_assoc]
            exact List.getElem?_append_left (by omega)
        size := by simp [answer, four]
        answer := by simp }
  | [] | [_] | [_, _] | [_, _, _] | [_, _, _, _] | [_, _, _, _, _] | [_, _, _, _, _, _]
  | [_, _, _, _, _, _, _] | [_, _, _, _, _, _, _, _] | [_, _, _, _, _, _, _, _, _]
  | [_, _, _, _, _, _, _, _, _, _] | [_, _, _, _, _, _, _, _, _, _, _] =>
    exact absurd header (by simp [headerSize])

variable {own : Address} {m reply : Bytes}

/-- The twelve bytes behind the query lead back to its name, which the question has. -/
theorem answer_read (replied : Replied own m reply) {name' : List Bytes} {next : Nat}
    (named : name m headerSize = some (name', next)) (beyond : headerSize < m.length) :
    resource reply m.length = some (⟨name', 1, 1, 60, own.octets⟩, m.length + 16) := by
  have four := own.four
  have byte (i : Nat) : reply[m.length + i]? = (answer ++ own.octets)[i]? := by
    rw [← replied.answer, List.getElem?_drop]
  have u16At (i : Nat) : u16 reply (m.length + i) = u16 (answer ++ own.octets) i := by
    simp only [u16, Nat.add_assoc, byte]
  have sized := replied.size
  have back : name reply m.length = some (name', m.length + 2) := by
    simp only [name, Option.bind_eq_bind, Option.bind_eq_some_iff] at named ⊢
    obtain ⟨⟨found, last⟩, run, named⟩ := named
    split at named
    · rename_i short
      obtain ⟨rfl, rfl⟩ := Prod.mk.inj (Option.some.inj named)
      have again := (labels_extends replied.kept 15 (Nat.le_refl _) run).1
      refine ⟨(found, m.length + 2), ?_, by rw [if_pos short]⟩
      have fuel : reply.length + 256 = (m.length + 256 + 15) + 1 := by omega
      rw [fuel, labels]
      have high : reply[m.length]? = some 0xC0 := byte 0
      have low : reply[m.length + 1]? = some 0x0C := byte 1
      have target : pointer 0xC0 0x0C = headerSize := rfl
      simp only [high, low, Option.bind_eq_bind, Option.bind_some]
      rw [if_neg (by decide), if_neg (by decide), if_pos (by decide), target,
        if_pos ⟨Nat.le_refl _, beyond⟩, again]
      rfl
    · cases named
  have data : slice reply (m.length + 12) 4 = some own.octets := by
    rw [slice, if_pos (by omega), ← List.drop_drop, replied.answer]
    have behind : (answer ++ own.octets).drop 12 = own.octets := rfl
    rw [behind, List.take_of_length_le (by omega)]
  simp only [resource, back, Option.bind_eq_bind, Option.bind_some, Nat.add_assoc, u16At]
  have fields : u16 (answer ++ own.octets) 2 = some 1 ∧ u16 (answer ++ own.octets) 4 = some 1 ∧
      u16 (answer ++ own.octets) 6 = some 0 ∧ u16 (answer ++ own.octets) 8 = some 60 ∧
      u16 (answer ++ own.octets) 10 = some 4 := ⟨rfl, rfl, rfl, rfl, rfl⟩
  simp only [fields, Option.bind_some, data]

theorem query_sections (q : Query) :
    ∃ added behind, Sections q.bytes q.message 1 0 0 added behind behind behind := by
  obtain ⟨asked, answered, named, added, first, second, third, sections⟩ := parse_some q.parsed
  have one : asked = 1 := by
    rw [← many_length sections.questions, q.question]
    rfl
  have noAnswers : answered = 0 := by
    rw [← many_length sections.answers, q.alone.1]
    rfl
  have noAuthority : named = 0 := by
    rw [← many_length sections.authority, q.alone.2]
    rfl
  subst one noAnswers noAuthority
  have secondFirst : second = first := (Prod.mk.inj (Option.some.inj sections.answers)).2.symm
  have thirdSecond : third = second := (Prod.mk.inj (Option.some.inj sections.authority)).2.symm
  subst secondFirst thirdSecond
  exact ⟨added, third, sections⟩

theorem query_name {q : Query} {added behind : Nat}
    (sections : Sections q.bytes q.message 1 0 0 added behind behind behind) :
    ∃ next, name q.bytes headerSize = some (q.name, next) ∧ next + 4 = behind := by
  have asked := sections.questions
  rw [q.question] at asked
  simp only [many, Option.bind_eq_bind, Option.bind_eq_some_iff, Option.some.injEq] at asked
  obtain ⟨⟨x, next⟩, here, ⟨rest, last⟩, nothing, same⟩ := asked
  obtain ⟨rfl, rfl⟩ := Prod.mk.inj nothing
  obtain ⟨same, place⟩ := Prod.mk.inj same
  obtain rfl := (List.cons.inj same).1
  simp only [question, Option.bind_eq_bind, Option.bind_eq_some_iff, Option.some.injEq] at here
  obtain ⟨⟨name', last⟩, named, type, _, cls, _, same⟩ := here
  obtain ⟨fields, place'⟩ := Prod.mk.inj same
  obtain rfl := (Question.mk.inj fields).1
  exact ⟨last, named, place'.trans place⟩

/-- A client that finds its answer in the reply has found nothing behind its own question. -/
theorem answers_alone {q : Query} (replied : Replied own q.bytes reply)
    (answers : Answers own q reply) : q.message.additional = [] := by
  obtain ⟨added, third, sections⟩ := query_sections q
  obtain ⟨question', forward, behind⟩ := many_local question_local 1 _ _ _ _ _ replied.kept
    (Nat.le_refl _) (parsed_header q.parsed) sections.questions
  obtain ⟨r, _, read, _, _, _, answers, authority, additional⟩ := answers
  obtain ⟨asked', answered', named', added', first', second', third', found⟩ := parse_some read
  have counts := found.counts
  rw [replied.asked, sections.counts.1, replied.counts.1, replied.counts.2.1,
    replied.counts.2.2] at counts
  simp only [Option.some.injEq] at counts
  obtain ⟨rfl, rfl, rfl, rfl⟩ := counts
  have place : first' = third := by
    have both := question'.symm.trans found.questions
    exact (Prod.mk.inj (Option.some.inj both)).2.symm
  have last := (Prod.mk.inj (Option.some.inj found.authority)).2
  have whole := (Prod.mk.inj (Option.some.inj found.additional)).2
  have size := replied.size
  cases added with
  | zero => exact List.length_eq_zero_iff.mp (many_length sections.additional)
  | succ added =>
    -- The client reads one record where the query's additional section begins.
    have records := sections.additional
    simp only [many, Option.bind_eq_bind, Option.bind_eq_some_iff] at records
    obtain ⟨⟨x, next⟩, here, _⟩ := records
    obtain ⟨here', _, ends⟩ := resource_local _ _ _ _ _ replied.kept forward behind here
    have read := found.answers
    rw [place] at read
    simp only [many, here', Option.bind_eq_bind, Option.bind_some, Option.some.injEq,
      Prod.mk.injEq] at read
    omega

theorem alone_answers {q : Query} (replied : Replied own q.bytes reply)
    (alone : q.message.additional = []) : Answers own q reply := by
  obtain ⟨added, third, sections⟩ := query_sections q
  have header := parsed_header q.parsed
  obtain ⟨question', _, _⟩ := many_local question_local 1 _ _ _ _ _ replied.kept
    (Nat.le_refl _) header sections.questions
  have none : added = 0 := by
    rw [← many_length sections.additional, alone]
    rfl
  subst none
  have ends : third = q.bytes.length := (Prod.mk.inj (Option.some.inj sections.additional)).2
  obtain ⟨next, named, four⟩ := query_name sections
  obtain ⟨_, onward, _⟩ := name_local _ _ _ _ _ replied.kept (Nat.le_refl _) header named
  have record := answer_read replied named (by omega)
  have read : Sections reply ⟨q.message.id, 0x8400, q.message.questions,
      [⟨q.name, 1, 1, 60, own.octets⟩], [], []⟩ 1 1 0 0 q.bytes.length (q.bytes.length + 16)
      (q.bytes.length + 16) := {
    id := replied.id.trans sections.id
    flags := replied.flags
    counts := ⟨replied.asked.trans sections.counts.1, replied.counts⟩
    questions := by rw [question', ends]
    answers := by simp only [many, record, Option.bind_eq_bind, Option.bind_some]
    authority := rfl
    additional := by rw [replied.size]; rfl }
  exact ⟨_, 60, sections_parse read, rfl, rfl, rfl, rfl, rfl, rfl⟩

theorem answers_iff (q : Query) (replied : Replied own q.bytes reply) :
    Answers own q reply ↔ q.message.additional = [] :=
  ⟨answers_alone replied, alone_answers replied⟩

theorem sent_answers_iff (own : Address) (buf : Buffer) (q : Query) :
    (∃ reply, (dnsHijack own buf.bytes (some q.bytes)).2 = some reply ∧ Answers own q reply) ↔
      q.message.additional = [] := by
  obtain ⟨reply, sent, replied⟩ := hijack_replied own buf (parsed_header q.parsed) q.short
  rw [← answers_iff q replied]
  constructor
  · rintro ⟨reply', sent', answers⟩
    rwa [Option.some.inj (sent.symm.trans sent')]
  · intro answers
    exact ⟨reply, sent, answers⟩

/-- A query is answered exactly when nothing stands behind its question. -/
theorem answered_iff (own : Address) (buf : Buffer) (q : Query) :
    Answered own buf q ↔ q.message.additional = [] := by
  rw [Answered, sent_answers_iff]
  exact and_iff_left (hijack_stays_inside own buf (some q.bytes))

def ednsQuery : Query where
  bytes := [0x12, 0x34, 0x01, 0x00, 0, 1, 0, 0, 0, 0, 0, 1] ++ [1, 97, 0, 0, 1, 0, 1] ++
    [0, 0, 41, 0x10, 0, 0, 0, 0, 0, 0, 0]
  message := {
    id := 0x1234
    flags := 0x0100
    questions := [⟨[[97]], 1, 1⟩]
    answers := []
    authority := []
    additional := [⟨[], 41, 4096, 0, []⟩] }
  short := by decide
  parsed := by decide
  asks := rfl
  name := [[97]]
  question := rfl
  alone := ⟨rfl, rfl⟩

def gateway : Address := ⟨[192, 168, 4, 1], rfl⟩

def emptyBuffer : Buffer := ⟨List.replicate bufSize 0, List.length_replicate⟩

/-- Its reply is sent, with the OPT record where the answer should stand. -/
theorem edns_query_unanswered :
    ¬ Answered gateway emptyBuffer ednsQuery ∧
      (dnsHijack gateway emptyBuffer.bytes (some ednsQuery.bytes)).2.isSome = true := by
  refine ⟨?_, by decide +kernel⟩
  intro answered
  exact absurd ((sent_answers_iff gateway emptyBuffer ednsQuery).mp answered.1)
    (List.cons_ne_nil _ _)

end GplugCaptiveDns
