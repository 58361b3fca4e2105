import NexPulse.Anomaly.Spikes
import NexPulse.Foundation.Fixed
import NexPulse.Foundation.JsonLayout
import Mathlib.Data.List.ReduceOption

/-!
# The payload of an alert

PublishSpikeAlert formats its payload with `%d` and `%.2f` in a JSON text put
together by hand.  A reader of JSON finds in it the four fields that are meant:
the count exactly, twice, and the average up to half a hundredth.
-/

namespace NexPulse.Anomaly

open NexPulse.Foundation NexPulse.Foundation.JsonText NexPulse.Foundation.Numeral

/-- `%.2f` -/
def hundredthsVerb (x : ℚ) : Text := write false (rounded 2 x)

def publishSpikeAlert (currentRPS : Int) (ema : ℚ) : Text :=
  "\x7b\"type\": \"anomaly\", \"message\": \"Traffic spiked to ".toList ++
    decimalVerb currentRPS ++ " req/sec\", \"rps\": ".toList ++ decimalVerb currentRPS ++
      ", \"ema\": ".toList ++ hundredthsVerb ema ++ "\x7d".toList

namespace SpikeAlert

def payload (alert : SpikeAlert) : Text := publishSpikeAlert alert.currentRPS alert.ema

def message (alert : SpikeAlert) : Text :=
  "Traffic spiked to ".toList ++ decimalVerb alert.currentRPS ++ " req/sec".toList

def tree (alert : SpikeAlert) : Tree :=
  .object
    [(runes "type".toList, .string (runes "anomaly".toList)),
      (runes "message".toList, .string (runes alert.message)),
      (runes "rps".toList, .number alert.currentRPS),
      (runes "ema".toList, .number (rounded 2 alert.ema).value)]

end SpikeAlert

example : publishSpikeAlert 450 (325 / 2) =
    ("\x7b\"type\": \"anomaly\", \"message\": \"Traffic spiked to 450 req/sec\", \"rps\": 450" ++
      ", \"ema\": 162.50\x7d").toList := by
  decide +kernel

def key (name : Text) : Text := '"' :: (name ++ '"' :: ':' :: [' '])

theorem runes_payload (alert : SpikeAlert) :
    runes alert.payload =
      some '{' :: (runes (key "type".toList) ++ some '"' :: (runes "anomaly".toList ++
        some '"' :: some ',' :: some ' ' :: (runes (key "message".toList) ++
          some '"' :: (runes alert.message ++ some '"' :: some ',' :: some ' ' ::
            (runes (key "rps".toList) ++ (runes (decimalVerb alert.currentRPS) ++
              some ',' :: some ' ' :: (runes (key "ema".toList) ++
                (runes (hundredthsVerb alert.ema) ++ [some '}'])))))))) := by
  have hopen : "\x7b\"type\": \"anomaly\", \"message\": \"Traffic spiked to ".toList =
      '{' :: (key "type".toList ++ '"' :: ("anomaly".toList ++ '"' :: ',' :: ' ' ::
        (key "message".toList ++ '"' :: "Traffic spiked to ".toList))) := by
    decide
  have hrps : " req/sec\", \"rps\": ".toList =
      " req/sec".toList ++ '"' :: ',' :: ' ' :: key "rps".toList := by
    decide
  have hema : ", \"ema\": ".toList = ',' :: ' ' :: key "ema".toList := by decide
  have hclose : runes "\x7d".toList = [some '}'] := by decide
  unfold SpikeAlert.payload publishSpikeAlert SpikeAlert.message
  simp only [hopen, hrps, hema]
  simp only [runes_append, runes_cons, List.append_assoc, List.cons_append, hclose]

section Reading

variable {rest : List Rune}

theorem readsAs_decimalVerb (n : Int) : ReadsAs (fun _ => decimalVerb n) (fun _ => n) n :=
  fun _ hrest => numeral_integer hrest n

theorem readsAs_hundredthsVerb (x : ℚ) :
    ReadsAs hundredthsVerb (fun x => (rounded 2 x).value) x :=
  fun _ hrest => numeral_rounded hrest (by decide) x

theorem plain_message (alert : SpikeAlert) : Plain alert.message := by
  have hbefore : Plain "Traffic spiked to ".toList := by decide
  have hafter : Plain " req/sec".toList := by decide
  exact (hbefore.append (plain_decimalVerb _)).append hafter

theorem blank_space : Blank [' '] := by
  intro char hchar
  obtain rfl := List.mem_singleton.mp hchar
  decide

theorem skipSpace_key (name : Text) (text : List Rune) :
    skipSpace (runes (key name) ++ text) = runes (key name) ++ text :=
  skipSpace_of_not (by decide) _

section Field

variable {name : Text} {content : List Rune} {tree : Tree} {depth : Nat}

theorem field_first (hname : Plain name)
    (hvalue : value depth (skipSpace content) = some (tree, rest)) :
    field (fun text => value depth text) (skipSpace (runes (key name) ++ content)) =
      some ((runes name, tree), rest) := by
  rw [skipSpace_key]
  exact field_gap hname blank_space hvalue

theorem field_next (hname : Plain name)
    (hvalue : value depth (skipSpace content) = some (tree, rest)) :
    field (fun text => value depth text) (skipSpace (some ' ' :: (runes (key name) ++ content))) =
      some ((runes name, tree), rest) := by
  have hspace : skipSpace (some ' ' :: (runes (key name) ++ content)) =
      skipSpace (runes (key name) ++ content) :=
    skipSpace_gap blank_space _
  rw [hspace, field_first hname hvalue]

end Field

end Reading

theorem parse_payload (alert : SpikeAlert) (depth : Nat) :
    parse (depth + 1) (runes alert.payload) = some alert.tree := by
  have hcomma (more : List Rune) : Stops (some ',' :: more) := stops_mark (by simp) more
  have hclosing : '}' ∈ [']', '}'] := by simp
  have hema := items_last hclosing 0 (field_next (by decide : Plain "ema".toList)
    (value_number (readsAs_hundredthsVerb alert.ema) depth (stops_mark (by simp) [])))
  have hrps := items_more (field_next (by decide : Plain "rps".toList)
    (value_number (readsAs_decimalVerb alert.currentRPS) depth (hcomma _))) hema
  have hmessage := items_more (field_next (by decide : Plain "message".toList)
    (value_plain (plain_message alert) depth _)) hrps
  have htype := items_more (field_first (by decide : Plain "type".toList)
    (value_plain (by decide : Plain "anomaly".toList) depth _)) hmessage
  have helements := elements_of_items htype (by rw [skipSpace_key]; simp [key, runes]) ?_
  · have hvalue : value (depth + 1) (skipSpace (runes alert.payload)) = some (alert.tree, []) := by
      rw [runes_payload, skipSpace_of_not (by decide), value, List.head?_cons,
        if_neg (by decide), if_pos rfl, List.tail_cons, helements]
      rfl
    rw [parse, hvalue]
    rfl
  · simp [key, runes]

/--
Whatever the count and the average are, the payload is a JSON object with the four
fields that PublishSpikeAlert means to send: the message and the field rps have the
count exactly, and the field ema is at most half a hundredth from the average.
-/
theorem publishSpikeAlert_reads (currentRPS : Int) (ema : ℚ) (depth : Nat) :
    ∃ hundredths : ℚ,
      parse (depth + 1) (runes (publishSpikeAlert currentRPS ema)) =
        some (.object
          [(runes "type".toList, .string (runes "anomaly".toList)),
            (runes "message".toList, .string (runes ("Traffic spiked to ".toList ++
              decimalVerb currentRPS ++ " req/sec".toList))),
            (runes "rps".toList, .number currentRPS),
            (runes "ema".toList, .number hundredths)]) ∧
      |hundredths - ema| ≤ 1 / 200 := by
  refine ⟨(rounded 2 ema).value, parse_payload ⟨currentRPS, ema⟩ depth, ?_⟩
  have hwithin := rounded_within 2 ema
  norm_num at hwithin ⊢
  exact hwithin

/-! ## Which alerts are published -/

end NexPulse.Anomaly
