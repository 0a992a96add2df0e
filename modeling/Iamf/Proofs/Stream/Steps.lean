import Iamf.Demuxer
import Iamf.Proofs.Obu.Complete

/-!
# `Iamf.Proofs.Stream.Steps`: what the demuxer does with one complete OBU

The demuxer reads ahead, looks at a header, and then consumes an OBU or passes
over it; part of the OBU may have been read ahead and the rest not. All that
matters is which bytes are still to come. `Source.Awaits` says that, and the
lemmas here say for every kind of OBU what one step makes of a source that
awaits a complete one: it awaits what is behind, and the rest of the demuxer
changes as the body says. How the input cuts the bytes up no longer appears.

* `descriptorStep_register`, `descriptorStep_delimiter`, `descriptorStep_reserved`,
  `descriptorStep_stop`: the first phase.
* `packetStep_frame`, `packetStep_block`, `packetStep_delimiter`,
  `packetStep_ignored`: the second phase.
-/

set_option autoImplicit false

namespace Iamf

/-! ### The source -/

namespace Source

/-- The bytes to come, read ahead or not. -/
def unread (source : Source) : Bytes :=
  source.lookahead ++ source.input.rest

/-- No more has been read ahead than a header needs. -/
def IsShort (source : Source) : Prop :=
  source.lookahead.length ≤ Obu.maxHeaderSize

/-- These bytes are to come, and then the input ends; where that was noticed, all
that is to come has been read ahead. -/
structure Awaits (source : Source) (bytes : Bytes) : Prop where
  unread : source.unread = bytes
  ends : source.input.failure = none
  noticed : source.ended = true → source.input.rest = []
  short : source.IsShort

/-- An input that does not fail brings all that is wanted or comes to its end. -/
theorem settled_of_ends (want : Nat) {input : Input} (hends : input.failure = none) :
    (input.gather want).2.1 = .complete
      ∨ ((input.gather want).2.1 = .ended ∧ input.rest.drop want = []) := by
  obtain ⟨-, houtcome, -, -⟩ := Input.gather_eq want input
  rw [houtcome, Input.ending, hends]
  split
  · exact .inl rfl
  · exact .inr ⟨rfl, List.drop_of_length_le (by omega)⟩

/-- Reading ahead leaves what is to come, and brings its first bytes into sight. -/
theorem fill_of_awaits {source : Source} {bytes : Bytes} (h : source.Awaits bytes) :
    ∃ after, fill Obu.maxHeaderSize source = .ok () after ∧ after.Awaits bytes
      ∧ after.lookahead = bytes.take Obu.maxHeaderSize := by
  have hunread := h.unread
  have hshort := h.short
  rw [unread] at hunread
  rw [IsShort] at hshort
  cases hended : source.ended with
  | true =>
    rw [h.noticed hended, List.append_nil] at hunread
    refine ⟨source, by simp only [fill, hended, if_true], h, ?_⟩
    rw [← hunread, List.take_of_length_le hshort]
  | false =>
    set missing := Obu.maxHeaderSize - source.lookahead.length with hmissing
    obtain ⟨hbytes, -, hrest, hfailure⟩ := Input.gather_eq missing source.input
    let lookahead := source.lookahead ++ source.input.rest.take missing
    let input := (source.input.gather missing).2.2
    have hall : lookahead ++ input.rest = bytes := by
      rw [← hunread, hrest, List.append_assoc, List.take_append_drop]
    have hlength : lookahead.length ≤ Obu.maxHeaderSize := by
      rw [List.length_append, List.length_take]
      omega
    have hsight : lookahead = bytes.take Obu.maxHeaderSize := by
      rw [← hunread, List.take_append, List.take_of_length_le hshort]
    rcases settled_of_ends missing h.ends with hcomplete | ⟨hends, hnil⟩
    · refine ⟨{ lookahead, input, ended := false }, ?_,
        ⟨hall, hfailure.trans h.ends, ?_, hlength⟩, hsight⟩
      · simp only [fill, hended, Bool.false_eq_true, if_false, ← hmissing, hcomplete, hbytes,
          lookahead, input]
      · exact fun hnever => absurd hnever Bool.false_ne_true
    · refine ⟨{ lookahead, input, ended := true }, ?_,
        ⟨hall, hfailure.trans h.ends, fun _ => hrest.trans hnil, hlength⟩, hsight⟩
      simp only [fill, hended, Bool.false_eq_true, if_false, ← hmissing, hends, hbytes, lookahead,
        input]

/-- Bytes that are to come are consumed, and leave those behind them. -/
theorem consume_of_awaits {program : Nat → Input → Bytes × Outcome × Input}
    (hprogram : Input.Gathers program) (subject : String) {source : Source}
    {front rest : Bytes} (h : source.Awaits (front ++ rest)) :
    ∃ after, consume program front.length subject source = .ok front after
      ∧ after.Awaits rest := by
  obtain ⟨hbytes, houtcome, hrest, hfailure⟩ :=
    hprogram (front.length - source.lookahead.length) source.input
  have hunread := h.unread
  rw [unread] at hunread
  have hlength := congrArg List.length hunread
  simp only [List.length_append] at hlength
  -- The front may end in the lookahead or behind it.
  have htaken : source.lookahead.take front.length
      ++ source.input.rest.take (front.length - source.lookahead.length) = front := by
    rw [← List.take_append, hunread, List.take_left]
  have hleft : source.lookahead.drop front.length
      ++ source.input.rest.drop (front.length - source.lookahead.length) = rest := by
    rw [← List.drop_append, hunread, List.drop_left]
  rw [if_pos (by omega)] at houtcome
  refine ⟨{ source with
      lookahead := source.lookahead.drop front.length
      input := (program (front.length - source.lookahead.length) source.input).2.2 },
    ?_, ?_, hfailure.trans h.ends, ?_, ?_⟩
  · simp only [consume, houtcome, hbytes, htaken]
  · simp only [unread, hrest, hleft]
  · intro hended
    rw [hrest, h.noticed hended, List.drop_nil]
  · show (source.lookahead.drop front.length).length ≤ Obu.maxHeaderSize
    rw [List.length_drop]
    exact Nat.le_trans (Nat.sub_le _ _) h.short

theorem take_of_awaits (subject : String) {source : Source} {front rest : Bytes}
    (h : source.Awaits (front ++ rest)) :
    ∃ after, take front.length subject source = .ok front after ∧ after.Awaits rest :=
  consume_of_awaits Input.gatherChunks_eq subject h

theorem skip_of_awaits (subject : String) {source : Source} {front rest : Bytes}
    (h : source.Awaits (front ++ rest)) :
    ∃ after, skip front.length subject source = .ok () after ∧ after.Awaits rest := by
  obtain ⟨after, hconsume, hafter⟩ := consume_of_awaits Input.gather_eq subject h
  exact ⟨after, Stateful.bind_of_ok hconsume, hafter⟩

end Source

/-! ### Looking at an OBU and consuming it -/

namespace Demuxer

variable {demuxer : Demuxer} {obu : Obu.Complete} {rest : Bytes}

theorem onSource_of_ok {α : Type} {program : Stateful Source α} (demuxer : Demuxer)
    {value : α} {source : Source} (h : program demuxer.source = .ok value source) :
    onSource program demuxer = .ok value { demuxer with source } := by
  simp only [onSource, Stateful.onPart, h]

/-- At the end of the input there is no header. -/
theorem peekHeader_of_nil (h : demuxer.source.Awaits []) :
    ∃ source, source.Awaits [] ∧ peekHeader demuxer = .ok none { demuxer with source } := by
  obtain ⟨source, hfill, hawaits, -⟩ := Source.fill_of_awaits h
  have hempty : source.lookahead = [] := by
    have hunread := hawaits.unread
    rw [Source.unread, List.append_eq_nil_iff] at hunread
    exact hunread.1
  refine ⟨source, hawaits, ?_⟩
  rw [peekHeader, Stateful.bind_of_ok (onSource_of_ok demuxer hfill)]
  show (if source.lookahead.isEmpty then _ else _ : Stateful Demuxer _) _ = _
  rw [hempty]
  rfl

/-- Where the input goes on, the header in its first bytes is looked at. -/
theorem peekHeader_eq {bytes : Bytes} (h : demuxer.source.Awaits bytes) (hbytes : bytes ≠ []) :
    ∃ source, source.Awaits bytes
      ∧ peekHeader demuxer = (do
          let header ← liftExcept (Obu.Header.parse (bytes.take Obu.maxHeaderSize))
          ensure (header.totalLength ≤ demuxer.config.maxObuSize)
            (.outOfRange "obu_size" header.totalLength)
          return some header : Stateful Demuxer _) { demuxer with source } := by
  obtain ⟨source, hfill, hawaits, hsight⟩ := Source.fill_of_awaits h
  have hseen : source.lookahead ≠ [] := by
    rw [hsight, Ne, List.take_eq_nil_iff]
    exact not_or.2 ⟨by decide, hbytes⟩
  refine ⟨source, hawaits, ?_⟩
  rw [peekHeader, Stateful.bind_of_ok (onSource_of_ok demuxer hfill)]
  show (if source.lookahead.isEmpty then _ else _ : Stateful Demuxer _) _ = _
  rw [if_neg (by simpa using hseen), hsight]

/-- Where no header is in sight, what it lacks is reported. -/
theorem peekHeader_of_error {bytes : Bytes} {error : Error} (h : demuxer.source.Awaits bytes)
    (hbytes : bytes ≠ [])
    (hparse : Obu.Header.parse (bytes.take Obu.maxHeaderSize) = .error error) :
    ∃ source, peekHeader demuxer = .error error { demuxer with source } := by
  obtain ⟨source, -, hpeek⟩ := peekHeader_eq h hbytes
  refine ⟨source, ?_⟩
  rw [hpeek, hparse]
  rfl

/-- A header in sight is seen, unless it is that of an OBU that is too large. -/
theorem peekHeader_of_parse {bytes : Bytes} {header : Obu.Header}
    (h : demuxer.source.Awaits bytes) (hbytes : bytes ≠ [])
    (hparse : Obu.Header.parse (bytes.take Obu.maxHeaderSize) = .ok header) :
    ∃ source, source.Awaits bytes
      ∧ peekHeader demuxer
        = if header.totalLength ≤ demuxer.config.maxObuSize then
            .ok (some header) { demuxer with source }
          else .error (.outOfRange "obu_size" header.totalLength) { demuxer with source } := by
  obtain ⟨source, hawaits, hpeek⟩ := peekHeader_eq h hbytes
  refine ⟨source, hawaits, ?_⟩
  rw [hpeek, Stateful.lift_bind, hparse]
  show (ensure _ _ >>= _ : Stateful Demuxer _) _ = _
  rw [ensure]
  split <;> rfl

/-- In front of a complete OBU that is not too large, its header is seen. -/
theorem peekHeader_of_awaits (h : demuxer.source.Awaits (obu.bytes ++ rest))
    (hsize : obu.header.totalLength ≤ demuxer.config.maxObuSize) :
    ∃ source, source.Awaits (obu.bytes ++ rest)
      ∧ peekHeader demuxer = .ok (some obu.header) { demuxer with source } := by
  have hbytes : obu.bytes ++ rest ≠ [] := by
    have htwo := obu.two_le_length
    exact List.append_ne_nil_of_left_ne_nil (List.ne_nil_of_length_pos (by omega)) rest
  have hparse : Obu.Header.parse ((obu.bytes ++ rest).take Obu.maxHeaderSize)
      = .ok obu.header := by
    rw [List.take_append]
    exact obu.parse_of_prefix (List.prefix_append _ _)
  obtain ⟨source, hawaits, hpeek⟩ := peekHeader_of_parse h hbytes hparse
  rw [if_pos hsize] at hpeek
  exact ⟨source, hawaits, hpeek⟩

/-- Reading the body of a complete OBU consumes all of the OBU. -/
theorem readBody_of_awaits (demuxer : Demuxer) (h : demuxer.source.Awaits (obu.bytes ++ rest)) :
    ∃ source, source.Awaits rest
      ∧ readBody obu.header demuxer = .ok obu.body { demuxer with source } := by
  have hsplit : obu.bytes ++ rest
      = obu.bytes.take obu.header.headerLength ++ (obu.body ++ rest) := by
    rw [Obu.Complete.body, ← List.append_assoc, List.take_append_drop]
  have hhead : (obu.bytes.take obu.header.headerLength).length = obu.header.headerLength := by
    rw [List.length_take, obu.whole, Obu.Header.totalLength]
    omega
  rw [hsplit] at h
  obtain ⟨middle, hskip, hmiddle⟩ := Source.skip_of_awaits "OBU header" h
  obtain ⟨source, htake, hsource⟩ := Source.take_of_awaits "OBU body" hmiddle
  rw [hhead] at hskip
  rw [obu.length_body] at htake
  refine ⟨source, hsource, ?_⟩
  rw [readBody, Stateful.bind_of_ok (onSource_of_ok demuxer hskip)]
  exact onSource_of_ok { demuxer with source := middle } htake

/-- Passing over a complete OBU consumes all of it. -/
theorem skipObu_of_awaits (demuxer : Demuxer) (subject : String)
    (h : demuxer.source.Awaits (obu.bytes ++ rest)) :
    ∃ source, source.Awaits rest
      ∧ skipObu obu.header subject demuxer = .ok () { demuxer with source } := by
  obtain ⟨source, hskip, hsource⟩ := Source.skip_of_awaits subject h
  rw [obu.whole] at hskip
  exact ⟨source, hsource, onSource_of_ok demuxer hskip⟩

theorem startTemporalUnit_of_awaits (demuxer : Demuxer)
    (h : demuxer.source.Awaits (obu.bytes ++ rest)) :
    ∃ source, source.Awaits rest
      ∧ startTemporalUnit obu.header demuxer = .ok () { demuxer with source, values := {} } := by
  obtain ⟨source, hsource, hskip⟩ := skipObu_of_awaits demuxer "temporal delimiter" h
  exact ⟨source, hsource, Stateful.bind_of_ok hskip⟩

/-! ### The first phase -/

/-- Whether an OBU ends the first phase. -/
def endsDescriptors : Obu.Kind → Bool
  | .parameterBlock | .audioFrame | .impliedFrame _ => true
  | _ => false

/-- Whether the body of an OBU goes into the registry in the first phase. -/
def isRegistered : Obu.Kind → Bool
  | .sequenceHeader | .codecConfig | .audioElement | .mixPresentation => true
  | _ => false

theorem descriptorStep_end (h : demuxer.source.Awaits []) :
    ∃ source, source.Awaits [] ∧ descriptorStep demuxer = .ok false { demuxer with source } := by
  obtain ⟨source, hsource, hpeek⟩ := peekHeader_of_nil h
  exact ⟨source, hsource, Stateful.bind_of_ok hpeek⟩

theorem descriptorStep_stop (h : demuxer.source.Awaits (obu.bytes ++ rest))
    (hsize : obu.header.totalLength ≤ demuxer.config.maxObuSize)
    (hkind : endsDescriptors obu.header.kind = true) :
    ∃ source, source.Awaits (obu.bytes ++ rest)
      ∧ descriptorStep demuxer = .ok false { demuxer with source } := by
  obtain ⟨source, hsource, hpeek⟩ := peekHeader_of_awaits h hsize
  refine ⟨source, hsource, ?_⟩
  rw [descriptorStep, Stateful.bind_of_ok hpeek]
  simp only [handleDescriptor]
  cases hcode : obu.header.kind <;> simp only [hcode, endsDescriptors] at hkind ⊢
  case parameterBlock | audioFrame | impliedFrame => rfl
  all_goals cases hkind

theorem descriptorStep_register (h : demuxer.source.Awaits (obu.bytes ++ rest))
    (hsize : obu.header.totalLength ≤ demuxer.config.maxObuSize)
    (hkind : isRegistered obu.header.kind = true) :
    ∃ source, source.Awaits rest ∧ descriptorStep demuxer
      = match Registry.parseDescriptor demuxer.config.mode obu.header.kind obu.body
          demuxer.registry with
        | .ok _ registry => .ok true { demuxer with source, registry }
        | .error error registry => .error error { demuxer with source, registry } := by
  obtain ⟨middle, hmiddle, hpeek⟩ := peekHeader_of_awaits h hsize
  obtain ⟨source, hsource, hbody⟩ :=
    readBody_of_awaits { demuxer with source := middle } hmiddle
  refine ⟨source, hsource, ?_⟩
  -- The body is consumed before it is parsed, so a failure leaves the source behind the OBU.
  have hregister : register obu.header { demuxer with source := middle }
      = match Registry.parseDescriptor demuxer.config.mode obu.header.kind obu.body
          demuxer.registry with
        | .ok _ registry => .ok () { demuxer with source, registry }
        | .error error registry => .error error { demuxer with source, registry } := by
    rw [register, Stateful.bind_of_ok hbody]
    show onRegistry _ _ = _
    simp only [onRegistry, Stateful.onPart]
    cases Registry.parseDescriptor demuxer.config.mode obu.header.kind obu.body
      demuxer.registry <;> rfl
  rw [descriptorStep, Stateful.bind_of_ok hpeek]
  have hhandle : handleDescriptor obu.header
      = register obu.header >>= fun _ => pure true := by
    simp only [handleDescriptor]
    cases hcode : obu.header.kind <;> simp only [hcode, isRegistered] at hkind ⊢
    all_goals cases hkind
  show handleDescriptor obu.header _ = _
  rw [hhandle]
  simp only [bind, EStateM.bind, hregister]
  cases Registry.parseDescriptor demuxer.config.mode obu.header.kind obu.body
    demuxer.registry <;> rfl

theorem descriptorStep_delimiter (h : demuxer.source.Awaits (obu.bytes ++ rest))
    (hsize : obu.header.totalLength ≤ demuxer.config.maxObuSize)
    (hkind : obu.header.kind = .temporalDelimiter) :
    ∃ source, source.Awaits rest
      ∧ descriptorStep demuxer = .ok true { demuxer with source, values := {} } := by
  obtain ⟨middle, hmiddle, hpeek⟩ := peekHeader_of_awaits h hsize
  obtain ⟨source, hsource, hstart⟩ :=
    startTemporalUnit_of_awaits { demuxer with source := middle } hmiddle
  refine ⟨source, hsource, ?_⟩
  rw [descriptorStep, Stateful.bind_of_ok hpeek]
  simp only [handleDescriptor, hkind]
  exact Stateful.bind_of_ok hstart

theorem descriptorStep_reserved {code : UInt8}
    (h : demuxer.source.Awaits (obu.bytes ++ rest))
    (hsize : obu.header.totalLength ≤ demuxer.config.maxObuSize)
    (hkind : obu.header.kind = .reserved code) :
    ∃ source, source.Awaits rest ∧ descriptorStep demuxer = .ok true { demuxer with source } := by
  obtain ⟨middle, hmiddle, hpeek⟩ := peekHeader_of_awaits h hsize
  obtain ⟨source, hsource, hskip⟩ :=
    skipObu_of_awaits { demuxer with source := middle } "OBU body" hmiddle
  refine ⟨source, hsource, ?_⟩
  rw [descriptorStep, Stateful.bind_of_ok hpeek]
  simp only [handleDescriptor, hkind]
  exact Stateful.bind_of_ok hskip

/-! ### The second phase -/

/-- Whether an OBU carries a packet. -/
def isFrame : Obu.Kind → Bool
  | .audioFrame | .impliedFrame _ => true
  | _ => false

/-- Whether an OBU means nothing in the second phase. -/
def isIgnored : Obu.Kind → Bool
  | .codecConfig | .audioElement | .mixPresentation | .sequenceHeader | .reserved _ => true
  | _ => false

/-- The first frame ends the descriptors. -/
theorem endsDescriptors_of_isFrame {kind : Obu.Kind} (h : isFrame kind = true) :
    endsDescriptors kind = true := by
  cases kind with
  | audioFrame => rfl
  | impliedFrame => rfl
  | _ => cases h

theorem packetStep_end (h : demuxer.source.Awaits []) :
    ∃ source, source.Awaits [] ∧ packetStep demuxer = .ok .ended { demuxer with source } := by
  obtain ⟨source, hsource, hpeek⟩ := peekHeader_of_nil h
  exact ⟨source, hsource, Stateful.bind_of_ok hpeek⟩

theorem packetStep_frame (h : demuxer.source.Awaits (obu.bytes ++ rest))
    (hsize : obu.header.totalLength ≤ demuxer.config.maxObuSize)
    (hkind : isFrame obu.header.kind = true) :
    ∃ source, source.Awaits rest ∧ packetStep demuxer
      = match demuxer.packetOf obu.header obu.body with
        | .ok packet => .ok (.packet packet) { demuxer with source }
        | .error error => .error error { demuxer with source } := by
  obtain ⟨middle, hmiddle, hpeek⟩ := peekHeader_of_awaits h hsize
  obtain ⟨source, hsource, hbody⟩ :=
    readBody_of_awaits { demuxer with source := middle } hmiddle
  refine ⟨source, hsource, ?_⟩
  -- The frame is consumed before it is looked at, as are the bodies of descriptors.
  have hframe : readFrame obu.header { demuxer with source := middle }
      = match demuxer.packetOf obu.header obu.body with
        | .ok packet => .ok packet { demuxer with source }
        | .error error => .error error { demuxer with source } := by
    rw [readFrame, Stateful.bind_of_ok hbody]
    show (liftExcept (demuxer.packetOf obu.header obu.body) : Stateful Demuxer Packet) _ = _
    cases demuxer.packetOf obu.header obu.body <;> rfl
  have hhandle : handlePacket obu.header
      = readFrame obu.header >>= fun packet => pure (.packet packet) := by
    simp only [handlePacket]
    cases hcode : obu.header.kind <;> simp only [hcode, isFrame] at hkind ⊢
    all_goals cases hkind
  rw [packetStep, Stateful.bind_of_ok hpeek]
  show handlePacket obu.header _ = _
  rw [hhandle]
  simp only [bind, EStateM.bind, hframe]
  cases demuxer.packetOf obu.header obu.body <;> rfl

theorem packetStep_block (h : demuxer.source.Awaits (obu.bytes ++ rest))
    (hsize : obu.header.totalLength ≤ demuxer.config.maxObuSize)
    (hkind : obu.header.kind = .parameterBlock) :
    ∃ source, source.Awaits rest ∧ packetStep demuxer
      = match Parameter.parseBlock demuxer.config.mode demuxer.registry obu.body with
        | .ok (some values) =>
          .ok .passed { demuxer with source, values := demuxer.values.update values }
        | .ok none => .ok .passed { demuxer with source }
        | .error error => .error error { demuxer with source } := by
  obtain ⟨middle, hmiddle, hpeek⟩ := peekHeader_of_awaits h hsize
  obtain ⟨source, hsource, hbody⟩ :=
    readBody_of_awaits { demuxer with source := middle } hmiddle
  refine ⟨source, hsource, ?_⟩
  have happly : applyBlock obu.body { demuxer with source }
      = match Parameter.parseBlock demuxer.config.mode demuxer.registry obu.body with
        | .ok (some values) =>
          .ok () { demuxer with source, values := demuxer.values.update values }
        | .ok none => .ok () { demuxer with source }
        | .error error => .error error { demuxer with source } := by
    show (liftExcept (Parameter.parseBlock _ _ _) >>= _ : Stateful Demuxer _) _ = _
    rw [Stateful.lift_bind]
    rcases Parameter.parseBlock demuxer.config.mode demuxer.registry obu.body
      with error | (_ | values) <;> rfl
  rw [packetStep, Stateful.bind_of_ok hpeek]
  simp only [handlePacket, hkind]
  rw [Stateful.bind_of_ok hbody]
  simp only [bind, EStateM.bind, happly]
  rcases Parameter.parseBlock demuxer.config.mode demuxer.registry obu.body
    with error | (_ | values) <;> rfl

theorem packetStep_delimiter (h : demuxer.source.Awaits (obu.bytes ++ rest))
    (hsize : obu.header.totalLength ≤ demuxer.config.maxObuSize)
    (hkind : obu.header.kind = .temporalDelimiter) :
    ∃ source, source.Awaits rest
      ∧ packetStep demuxer = .ok .passed { demuxer with source, values := {} } := by
  obtain ⟨middle, hmiddle, hpeek⟩ := peekHeader_of_awaits h hsize
  obtain ⟨source, hsource, hstart⟩ :=
    startTemporalUnit_of_awaits { demuxer with source := middle } hmiddle
  refine ⟨source, hsource, ?_⟩
  rw [packetStep, Stateful.bind_of_ok hpeek]
  simp only [handlePacket, hkind]
  exact Stateful.bind_of_ok hstart

theorem packetStep_ignored (h : demuxer.source.Awaits (obu.bytes ++ rest))
    (hsize : obu.header.totalLength ≤ demuxer.config.maxObuSize)
    (hkind : isIgnored obu.header.kind = true) :
    ∃ source, source.Awaits rest
      ∧ packetStep demuxer = .ok .passed { demuxer with source } := by
  obtain ⟨middle, hmiddle, hpeek⟩ := peekHeader_of_awaits h hsize
  obtain ⟨source, hsource, hskip⟩ :=
    skipObu_of_awaits { demuxer with source := middle } "OBU body" hmiddle
  refine ⟨source, hsource, ?_⟩
  rw [packetStep, Stateful.bind_of_ok hpeek]
  simp only [handlePacket]
  cases hcode : obu.header.kind <;> simp only [hcode, isIgnored] at hkind ⊢
  case parameterBlock | audioFrame | impliedFrame | temporalDelimiter => cases hkind
  all_goals exact Stateful.bind_of_ok hskip

end Demuxer

end Iamf
