import EarlyBoot.DebugConsole
import EarlyBoot.Proofs.Bytes.Joined

/-!
# `EarlyBoot.Proofs.DebugConsole.Carried`: what a debug console is sent

Requests come in any order: traces, records through the logger or past it, and any number of
installations. What is to be sent is said first, apart from any logger: the line of a record
with its words and brackets (`lineOf`), the levels that a threshold lets through (`passing`),
and the text of all requests together (`transcript`). Port and words are written out there, so
that a logger that writes something else, or somewhere else, does not carry its transcript.

What has to be known of the requests so far is whether one of them was an installation, and
which threshold the first one asked for. `Logger.after` is the logger in that state; every
request takes it to the logger after one more request (`step_after`), and what is sent is a
matter of the request and that threshold alone (`sentTo_step_after`).

A record is filtered twice, on the way to the logger and by the logger. Both ask the same
threshold, so the second finds nothing left to drop; a record that is handed over directly meets
the second alone, which lets none through before an installation.

Main statements:

* `Logger.step_after`, `Logger.run_after` : the logger that requests leave behind;
* `Logger.getElem?_run_after` : each request is answered by the logger of those in front of it;
* `Logger.sentTo_run_after` : the bytes of a run are the transcript of its requests;
* `run_carried` : the bytes, the masking, the answers to installations, and what these change.
-/

set_option autoImplicit false

namespace EarlyBoot.DebugConsole

/-! ### What is to be sent -/

/-- The word for a level. -/
def levelWord : Log.Level → String
  | .error => "ERROR"
  | .warn  => "WARN"
  | .info  => "INFO"
  | .debug => "DEBUG"
  | .trace => "TRACE"

/-- The line of a record: its level in brackets, who speaks, and the message. -/
def lineOf (record : Log.Record) : String :=
  "[" ++ levelWord record.level ++ "] " ++ record.target ++ ": " ++ record.message ++ "\n"

/-- The levels that are not above a threshold. -/
def passing : Log.Threshold → List Log.Level
  | none        => []
  | some .error => [.error]
  | some .warn  => [.error, .warn]
  | some .info  => [.error, .warn, .info]
  | some .debug => [.error, .warn, .info, .debug]
  | some .trace => [.error, .warn, .info, .debug, .trace]

namespace Request

/-- Whether a request installs the logger. -/
def isInstall : Request → Bool
  | .install _ => true
  | _          => false

/-- What a request adds to the text at the port, under a threshold. -/
def text (threshold : Log.Threshold) : Request → String
  | .install _                   => ""
  | .log record | .direct record =>
      if record.level ∈ passing threshold then lineOf record else ""
  | .trace text                  => text

end Request

/-- The text that requests leave at the port of a machine without a logger: the threshold of
the first installation holds from there on. -/
def transcript (requests : List Request) : String :=
  let before := requests.takeWhile fun request => !request.isInstall
  let after := requests.dropWhile fun request => !request.isInstall
  let threshold :=
    match after with
    | .install threshold :: _ => threshold
    | _                       => none
  String.join (before.map (·.text none)) ++ String.join (after.map (·.text threshold))

/-- What is seen of a line that is sent: where interrupts are let through, they are masked
around it. -/
def lineEvents (interrupts : Bool) (record : Log.Record) : List Event :=
  if interrupts then [.mask, .out 0x402 (lineOf record), .unmask] else [.out 0x402 (lineOf record)]

/-- The levels that `passing` writes out for a threshold are those that `Threshold.admits` lets
through. -/
theorem mem_passing_iff (threshold : Log.Threshold) (level : Log.Level) :
    level ∈ passing threshold ↔ threshold.admits level = true := by
  cases threshold with
  | none => simp [passing, Log.Threshold.admits]
  | some least =>
      cases least <;> cases level <;> decide

/-- The line that `Record.line` makes, closed by a line feed, is the one that `lineOf` spells
out. -/
theorem line_append_newline (record : Log.Record) : record.line ++ "\n" = lineOf record := by
  have hword : levelWord record.level = record.level.name := by
    cases record.level <;> rfl
  rw [Log.Record.line, lineOf, hword]

/-! ### Bytes at a port -/

/-- The bytes that an event sends to a port. -/
def Event.bytesTo (place : UInt16) : Event → ByteArray
  | .out port text                 => if port = place then text.toUTF8 else ByteArray.empty
  | .installed _ | .mask | .unmask => ByteArray.empty

/-- The bytes that events send to a port, one after the other. -/
def sentTo (place : UInt16) (events : List Event) : ByteArray :=
  Bytes.joined (Event.bytesTo place) events

/-- Whether interrupts are let through behind an event. -/
def Event.letsThrough (interrupts : Bool) : Event → Bool
  | .mask                   => false
  | .unmask                 => true
  | .installed _ | .out _ _ => interrupts

/-- Two stretches of events send to a port the bytes of the first and then those of the second. -/
theorem sentTo_append (place : UInt16) (events more : List Event) :
    sentTo place (events ++ more) = sentTo place events ++ sentTo place more :=
  Bytes.joined_append _ events more

/-- Take a text that is sent to `port`, and nothing else. Then `sentTo` has its bytes at that
port, and none at any other. -/
theorem sentTo_out (place : UInt16) (text : String) :
    sentTo place [.out port text] = if place = 0x402 then text.toUTF8 else ByteArray.empty := by
  rw [sentTo, Bytes.joined, Bytes.joined, ByteArray.append_empty, Event.bytesTo]
  have hport : port = 0x402 := rfl
  by_cases hplace : place = 0x402
  · rw [if_pos hplace, if_pos (hport.trans hplace.symm)]
  · rw [if_neg hplace, if_neg fun h => hplace (h.symm.trans hport)]

/-- Masking sends nothing: around any events `guarded` leaves the bytes at every port alone. -/
theorem sentTo_guarded (interrupts : Bool) (place : UInt16) (events : List Event) :
    sentTo place (guarded interrupts events) = sentTo place events := by
  cases interrupts with
  | false => rfl
  | true =>
      have hmask : sentTo place [.mask] = ByteArray.empty := rfl
      have hunmask : sentTo place [.unmask] = ByteArray.empty := rfl
      rw [guarded, if_pos rfl, ← List.singleton_append, List.append_assoc, sentTo_append,
        sentTo_append, hmask, hunmask, ByteArray.empty_append, ByteArray.append_empty]

/-- A line that `writeLine` is given arrives at the port in full. -/
theorem sentTo_writeLine (interrupts : Bool) (place : UInt16) (line : Option String) :
    sentTo place (writeLine interrupts line) =
      if place = 0x402 then (line.getD "").toUTF8 else ByteArray.empty := by
  cases line with
  | none =>
      have hempty : "".toUTF8 = ByteArray.empty := rfl
      rw [Option.getD_none, hempty, ite_self]
      rfl
  | some line => rw [writeLine, sentTo_guarded, sentTo_out, Option.getD_some]

/-- The encoding of two texts in a row is the two encodings in a row. -/
theorem toUTF8_append (text more : String) :
    (text ++ more).toUTF8 = text.toUTF8 ++ more.toUTF8 := by
  rw [String.toUTF8_eq_toByteArray, String.toByteArray_append]
  rfl

/-- The shares of two texts at a port, one behind the other, are the share of the two texts in a
row. -/
theorem ite_toUTF8_append (place : UInt16) (text more : String) :
    (if place = 0x402 then text.toUTF8 else ByteArray.empty) ++
        (if place = 0x402 then more.toUTF8 else ByteArray.empty) =
      if place = 0x402 then (text ++ more).toUTF8 else ByteArray.empty := by
  split
  · exact (toUTF8_append text more).symm
  · exact ByteArray.empty_append

/-! ### The first installation -/

/-- The threshold that the first installation asks for. -/
def firstThreshold (requests : List Request) : Log.Threshold :=
  match requests.find? Request.isInstall with
  | some (.install threshold) => threshold
  | _                         => none

/-- Whether there is an installation among the requests. -/
def installs (requests : List Request) : Bool :=
  requests.any Request.isInstall

/-- There is an installation in two lists of requests if there is one in the first or in the
second. -/
theorem installs_append (front rest : List Request) :
    installs (front ++ rest) = (installs front || installs rest) :=
  List.any_append

/-- One more request at the end adds an installation if it is one. -/
theorem installs_concat (front : List Request) (request : Request) :
    installs (front ++ [request]) = (installs front || request.isInstall) := by
  rw [installs_append]
  simp [installs]

/-- Without an installation none is found. -/
theorem find?_of_not_installs {requests : List Request} (h : installs requests = false) :
    requests.find? Request.isInstall = none := by
  rw [List.find?_eq_none]
  exact fun request hmem => List.any_eq_false.mp h request hmem

/-- Without an installation `firstThreshold` has none to return, so `passing` lets nothing
through. -/
theorem firstThreshold_of_not_installs {requests : List Request} (h : installs requests = false) :
    firstThreshold requests = none := by
  rw [firstThreshold, find?_of_not_installs h]

/-- Take requests with an installation among them. Then `firstThreshold` does not change with the
requests behind them. -/
theorem firstThreshold_append {front : List Request} (h : installs front = true)
    (rest : List Request) : firstThreshold (front ++ rest) = firstThreshold front := by
  have hfound : (front.find? Request.isInstall).isSome = true := by
    rw [List.find?_isSome]
    exact List.any_eq_true.mp h
  obtain ⟨request, hrequest⟩ := Option.isSome_iff_exists.mp hfound
  rw [firstThreshold, firstThreshold, List.find?_append, hrequest, Option.some_or]

/-- Take requests without an installation. Then the threshold of the first one behind them
counts. -/
theorem firstThreshold_append_install {front : List Request} (h : installs front = false)
    (threshold : Log.Threshold) :
    firstThreshold (front ++ [.install threshold]) = threshold := by
  rw [firstThreshold, List.find?_append, find?_of_not_installs h]
  rfl

namespace Logger

/-- The logger of a machine that had none before these requests. -/
def after (requests : List Request) : Logger where
  installed := installs requests
  threshold := firstThreshold requests

/-- Take requests with an installation among them. Then the logger after them is the logger after
any further requests too. -/
theorem after_append {front : List Request} (h : installs front = true) (rest : List Request) :
    after (front ++ rest) = after front := by
  rw [after, after, installs_append, h, firstThreshold_append h, Bool.true_or]

/-- A request that is no installation leaves the logger as it is. -/
theorem after_append_of_not_install (front : List Request) {request : Request}
    (h : request.isInstall = false) : after (front ++ [request]) = after front := by
  cases hfront : installs front with
  | true => exact after_append hfront [request]
  | false =>
      have hall : installs (front ++ [request]) = false := by
        rw [installs_concat, hfront, h]
        rfl
      rw [after, after, hall, hfront, firstThreshold_of_not_installs hall,
        firstThreshold_of_not_installs hfront]

/-! ### One request -/

/-- After any requests `Logger.install` succeeds exactly if none of them was an installation, and
leaves the logger that `after` names for one request more. -/
theorem install_after (front : List Request) (threshold : Log.Threshold) :
    (after front).install threshold =
      (!installs front, after (front ++ [.install threshold])) := by
  -- Only the first installation is taken, and its threshold is the one that counts.
  cases hfront : installs front with
  | true =>
      rw [install_of_installed hfront threshold, after_append hfront]
      rfl
  | false =>
      have hall : installs (front ++ [.install threshold]) = true := by
        rw [installs_concat, hfront]
        rfl
      rw [install, after, if_neg (by simp [hfront]), after, hall,
        firstThreshold_append_install hfront]
      rfl

/-- One step keeps the invariant: on the logger after `front`, `step` leaves the logger after
`front` and the request. -/
theorem step_after (interrupts : Bool) (front : List Request) (request : Request) :
    (step interrupts (after front) request).2 = after (front ++ [request]) := by
  cases request with
  | install threshold => rw [step, install_after]
  | log record => exact (after_append_of_not_install front rfl).symm
  | direct record => exact (after_append_of_not_install front rfl).symm
  | trace text => exact (after_append_of_not_install front rfl).symm

/-- What `Logger.direct` does with a record: it has the line of `lineOf` if the level is in
`passing` of the threshold, and no line otherwise. -/
theorem direct_eq (logger : Logger) (record : Log.Record) :
    logger.direct record =
      if record.level ∈ passing logger.threshold then some (lineOf record) else none := by
  unfold direct
  simp only [line_append_newline, mem_passing_iff]

/-- On the way through the logger a record meets the same threshold twice: `Logger.log` has a
line for exactly the records that `Logger.direct` has one for. -/
theorem log_after (front : List Request) (record : Log.Record) :
    (after front).log record = (after front).direct record := by
  unfold log
  split
  · rfl
  · rename_i hlost
    rw [direct]
    cases hadmits : (after front).threshold.admits record.level with
    | false => rfl
    | true =>
        -- The record passes the threshold, so there is one, and the logger is installed.
        cases hfront : installs front with
        | true => exact absurd (by rw [hadmits]; simp [after, hfront]) hlost
        | false =>
            have hnone : (after front).threshold = none := firstThreshold_of_not_installs hfront
            rw [hnone] at hadmits
            cases hadmits

/-- Take a record whose level the first installation in front of it lets through. Then both ways of
logging it send `lineEvents`: one line, with interrupts masked around it if they were not masked. -/
theorem step_after_of_passing (interrupts : Bool) {front : List Request} {record : Log.Record}
    (h : record.level ∈ passing (firstThreshold front)) {request : Request}
    (hrequest : request = .log record ∨ request = .direct record) :
    (step interrupts (after front) request).1 = lineEvents interrupts record := by
  have hline : (after front).direct record = some (lineOf record) := by
    rw [direct_eq]
    exact if_pos h
  have hevents : writeLine interrupts (some (lineOf record)) = lineEvents interrupts record := by
    cases interrupts <;> rfl
  rcases hrequest with rfl | rfl
  · rw [step, log_after, hline, hevents]
  · rw [step, hline, hevents]

/-- What one request sends, after `front`: to the port it is the share of the request in the
transcript, under the threshold of `firstThreshold`, and to any other port it is nothing. -/
theorem sentTo_step_after (interrupts : Bool) (place : UInt16) (front : List Request)
    (request : Request) :
    sentTo place (step interrupts (after front) request).1 =
      if place = 0x402 then (request.text (firstThreshold front)).toUTF8
      else ByteArray.empty := by
  -- The threshold in force decides, whichever way the record comes.
  have hrecord (record : Log.Record) :
      ((after front).direct record).getD "" =
        if record.level ∈ passing (firstThreshold front) then lineOf record else "" := by
    rw [direct_eq]
    show (ite (record.level ∈ passing (firstThreshold front)) (some (lineOf record)) none).getD ""
      = _
    split <;> rfl
  cases request with
  | install threshold => exact (sentTo_writeLine interrupts place none).trans rfl
  | log record => rw [step, log_after, sentTo_writeLine, hrecord, Request.text]
  | direct record => rw [step, sentTo_writeLine, hrecord, Request.text]
  | trace text =>
      rw [step, Request.text]
      split
      · rename_i hempty
        rw [String.isEmpty_iff.mp hempty]
        exact (sentTo_writeLine interrupts place none).trans rfl
      · exact sentTo_out place text

/-- Guards nest: the events of one request leave interrupts masked, or let through, as they found
them. -/
theorem foldl_letsThrough_step (interrupts : Bool) (logger : Logger) (request : Request) :
    (step interrupts logger request).1.foldl Event.letsThrough interrupts = interrupts := by
  have hline (line : Option String) :
      (writeLine interrupts line).foldl Event.letsThrough interrupts = interrupts := by
    cases line <;> cases interrupts <;> rfl
  cases request with
  | install threshold => rfl
  | log record => exact hline _
  | direct record => exact hline _
  | trace text =>
      rw [step]
      split <;> rfl

/-! ### Whole runs -/

/-- A run answers the first request with `step`, and the others with the logger that `step`
leaves. -/
theorem run_cons (interrupts : Bool) (logger : Logger) (request : Request)
    (requests : List Request) :
    run interrupts logger (request :: requests) =
      ((step interrupts logger request).1 ::
          (run interrupts (step interrupts logger request).2 requests).1,
        (run interrupts (step interrupts logger request).2 requests).2) := rfl

variable (interrupts : Bool)

/-- A run that starts with the logger after `front` leaves the logger after `front` and its
requests. -/
theorem run_after (front requests : List Request) :
    (run interrupts (after front) requests).2 = after (front ++ requests) := by
  -- Each request moves to the requests in front of the next one.
  induction requests generalizing front with
  | nil => rw [List.append_nil]; rfl
  | cons request requests ih =>
      rw [run_cons, step_after, ih, List.append_assoc, List.singleton_append]

/-- Each request is answered by the logger of those in front of it: its events in `Logger.run`
are those of `Logger.step` on that logger. -/
theorem getElem?_run_after (front requests : List Request) (n : Nat) :
    (run interrupts (after front) requests).1[n]? =
      requests[n]?.map fun request =>
        (step interrupts (after (front ++ requests.take n)) request).1 := by
  induction requests generalizing front n with
  | nil => rfl
  | cons request requests ih =>
      rw [run_cons, step_after]
      cases n with
      | zero => simp
      | succ n => simp [ih]

/-- Take a run that starts behind an installation. Then it sends to the port the share of each
request under that threshold, in order, and to any other port nothing. -/
theorem sentTo_run_of_installs {front : List Request} (h : installs front = true)
    (place : UInt16) (requests : List Request) :
    sentTo place (run interrupts (after front) requests).1.flatten =
      if place = 0x402 then
        (String.join (requests.map (·.text (firstThreshold front)))).toUTF8
      else ByteArray.empty := by
  induction requests with
  | nil => exact (sentTo_writeLine interrupts place none).trans rfl
  | cons request requests ih =>
      rw [run_cons, step_after, after_append h, List.flatten_cons, sentTo_append,
        sentTo_step_after, ih, ite_toUTF8_append, List.map_cons, String.join_cons]

/-- A request that installs nothing goes first in the transcript: its text with no threshold, and
then the transcript of the others. -/
theorem transcript_cons {request : Request} (h : request.isInstall = false)
    (requests : List Request) :
    transcript (request :: requests) = request.text none ++ transcript requests := by
  simp [transcript, h, String.append_assoc]

/-- Behind a first installation the transcript is the text of each request under its threshold. -/
theorem transcript_install (threshold : Log.Threshold) (requests : List Request) :
    transcript (.install threshold :: requests) =
      String.join (requests.map (·.text threshold)) := by
  simp [transcript, Request.isInstall, Request.text]

/-- Take a run that starts without an installation. Then it sends to the port its `transcript`, and
to any other port nothing. The induction is on the requests, up to the first installation. -/
theorem sentTo_run_after {front : List Request} (h : installs front = false) (place : UInt16)
    (requests : List Request) :
    sentTo place (run interrupts (after front) requests).1.flatten =
      if place = 0x402 then (transcript requests).toUTF8 else ByteArray.empty := by
  induction requests generalizing front with
  | nil => exact (sentTo_writeLine interrupts place none).trans rfl
  | cons request requests ih =>
      rw [run_cons, step_after, List.flatten_cons, sentTo_append, sentTo_step_after,
        firstThreshold_of_not_installs h]
      cases hrequest : request.isInstall with
      | false =>
          have hall : installs (front ++ [request]) = false := by
            rw [installs_concat, h, hrequest]
            rfl
          rw [ih hall, ite_toUTF8_append, transcript_cons hrequest]
      | true =>
          cases request with
          | install threshold =>
              have hall : installs (front ++ [.install threshold]) = true := by
                rw [installs_concat, h]
                rfl
              rw [sentTo_run_of_installs interrupts hall, firstThreshold_append_install h,
                ite_toUTF8_append, transcript_install, Request.text, String.empty_append]
          | log record => cases hrequest
          | direct record => cases hrequest
          | trace text => cases hrequest

/-- A whole run leaves interrupts as it found them, by `foldl_letsThrough_step` at each request. -/
theorem foldl_letsThrough_run (logger : Logger) (requests : List Request) :
    (run interrupts logger requests).1.flatten.foldl Event.letsThrough interrupts =
      interrupts := by
  induction requests generalizing logger with
  | nil => rfl
  | cons request requests ih =>
      rw [run_cons, List.flatten_cons, List.foldl_append, foldl_letsThrough_step, ih]

end Logger

/-- What is to be seen of a run of these requests: the events of each, and the logger that is
left. -/
structure Carried (interrupts : Bool) (requests : List Request)
    (answer : List (List Event) × Logger) : Prop where
  /-- Port `0x402` gets the transcript, byte for byte, and no other port gets anything. -/
  sentTo_eq : ∀ place, sentTo place answer.1.flatten =
    if place = 0x402 then (transcript requests).toUTF8 else ByteArray.empty
  /-- Each request sends its own share: a trace its text, and a record its line if the first
  installation in front of it lets its level through. -/
  share_eq : ∀ (n : Nat) (request : Request), requests[n]? = some request →
    ∃ events, answer.1[n]? = some events ∧
      sentTo 0x402 events = (request.text (firstThreshold (requests.take n))).toUTF8
  /-- A line is sent as a whole, while interrupts are masked. -/
  line_eq : ∀ (n : Nat) (record : Log.Record),
    requests[n]? = some (.log record) ∨ requests[n]? = some (.direct record) →
    record.level ∈ passing (firstThreshold (requests.take n)) →
      answer.1[n]? = some (lineEvents interrupts record)
  /-- Interrupts are let through behind the run exactly if they were before it. -/
  interrupts_eq : answer.1.flatten.foldl Event.letsThrough interrupts = interrupts
  /-- An installation succeeds exactly if there was none before. -/
  installed_eq : ∀ (n : Nat) (threshold : Log.Threshold),
    requests[n]? = some (.install threshold) →
      answer.1[n]? = some [.installed (!installs (requests.take n))]
  logger_eq : answer.2 = { installed := installs requests, threshold := firstThreshold requests }

/-- Take a machine without a logger, with interrupts masked or not, and any requests. Then the run
is `Carried`: port 0x402 gets the traces and, as `[LEVEL] target: message`, exactly the records
behind the first installation that its threshold lets through, in order. Every further installation
fails, and the logger stays as the first one left it. -/
theorem run_carried (interrupts : Bool) (requests : List Request) :
    Carried interrupts requests (Logger.run interrupts {} requests) ∧
    ∀ more, installs requests = true →
      (Logger.run interrupts {} (requests ++ more)).2 = (Logger.run interrupts {} requests).2 := by
  have hlogger (requests : List Request) :
      (Logger.run interrupts {} requests).2 = Logger.after requests :=
    Logger.run_after interrupts [] requests
  -- The logger that answers a request is the one after the requests in front of it.
  have hanswer (n : Nat) {request : Request} (hrequest : requests[n]? = some request) :
      (Logger.run interrupts {} requests).1[n]? =
        some (Logger.step interrupts (Logger.after (requests.take n)) request).1 := by
    have hall := Logger.getElem?_run_after interrupts [] requests n
    rwa [hrequest] at hall
  refine ⟨⟨?_, ?_, ?_, ?_, ?_, hlogger requests⟩, ?_⟩
  · intro place
    have hnone : installs [] = false := rfl
    exact Logger.sentTo_run_after interrupts hnone place requests
  · intro n request hrequest
    refine ⟨_, hanswer n hrequest, ?_⟩
    rw [Logger.sentTo_step_after, if_pos rfl]
  · rintro n record (hrequest | hrequest) hpassing
    · rw [hanswer n hrequest, Logger.step_after_of_passing interrupts hpassing (.inl rfl)]
    · rw [hanswer n hrequest, Logger.step_after_of_passing interrupts hpassing (.inr rfl)]
  · exact Logger.foldl_letsThrough_run interrupts {} requests
  · intro n threshold hrequest
    rw [hanswer n hrequest, Logger.step, Logger.install_after]
  · intro more hinstalls
    rw [hlogger, hlogger, Logger.after_append hinstalls]

/-- Take a machine that lets interrupts through, and two installations, the second of them for more
than the first. Then by `run_carried` neither the record in front of the first nor the one that its
threshold keeps back is sent, the second changes nothing, and the one line that is sent has
interrupts masked around it. -/
theorem run_carried_twice_installed :
    let early : Log.Record := { level := .error, target := "kernel", message := "lost" }
    let late : Log.Record := { level := .warn, target := "kernel", message := "shown" }
    let low : Log.Record := { level := .debug, target := "kernel", message := "dropped" }
    let requests : List Request :=
      [.trace "a", .log early, .install (some .info), .log late, .install (some .trace),
        .log low, .direct low, .trace "b"]
    let answer := Logger.run true {} requests
    sentTo 0x402 answer.1.flatten = "a[WARN] kernel: shown\nb".toUTF8 ∧
      answer.1[3]? = some [.mask, .out 0x402 "[WARN] kernel: shown\n", .unmask] ∧
      answer.1[4]? = some [.installed false] ∧
      (Logger.run true {} (requests ++ [.install none])).2 =
        { installed := true, threshold := some .info } := by
  intro early late low requests answer
  obtain ⟨hcarried, hlater⟩ := run_carried true requests
  have htranscript : transcript requests = "a[WARN] kernel: shown\nb" := by decide
  have hsent := hcarried.sentTo_eq 0x402
  rw [if_pos rfl, htranscript] at hsent
  refine ⟨hsent, hcarried.line_eq 3 late (.inl rfl) (by decide), hcarried.installed_eq 4 _ rfl, ?_⟩
  rw [hlater [.install none] rfl, hcarried.logger_eq]
  rfl

end EarlyBoot.DebugConsole
