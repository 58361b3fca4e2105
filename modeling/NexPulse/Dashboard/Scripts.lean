import NexPulse.Foundation.Slices
import NexPulse.Foundation.Text

/-!
# The dashboard scripts

`merge_top.py`, `restructure.py` and `move_back.py` read the lines of
`generate_dashboard.py`, search them for marker comments, and write the file
anew.  Each script is a function on the text of the file; `none` stands for a
script that stops before it writes.
-/

namespace NexPulse.Dashboard

open NexPulse.Foundation
open NexPulse.Foundation.Slices

/-- `marker in line` -/
def mentions (marker line : Text) : Bool := decide (marker <:+: line)

/-! ## merge_top.py -/

def rowOneMarker : Text := "# ROW 1: KPIs".toList

def rowTwoMarker : Text := "# ROW 2: HTTP Ingress".toList

/-- `new_block` of merge_top.py. -/
def newBlockLines : List String :=
  ["    # ROW 1: Overview & System Saturation\n",
   "    add_row(\"Overview & System Saturation\")\n",
   "    \n",
   "    def create_minimal_stat(title, expr, x, color, unit=\"none\"):\n",
   "        return \x7b\n",
   "            \"type\": \"stat\",\n",
   "            \"title\": title,\n",
   "            \"gridPos\": \x7b\"h\": 5, \"w\": 3, \"x\": x, \"y\": y_pos\x7d,\n",
   "            \"id\": len(panels) + 1,\n",
   "            \"datasource\": \x7b\"type\": \"prometheus\", \"uid\": " ++
    "\"prometheus-nexpulse\"\x7d,\n",
   "            \"targets\": [\x7b\"expr\": expr, \"refId\": \"A\"\x7d],\n",
   "            \"options\": \x7b\n",
   "                \"colorMode\": \"value\",\n",
   "                \"graphMode\": \"none\",\n",
   "                \"justifyMode\": \"auto\",\n",
   "                \"reduceOptions\": \x7b\"calcs\": [\"lastNotNull\"]\x7d,\n",
   "                \"textMode\": \"auto\"\n",
   "            \x7d,\n",
   "            \"fieldConfig\": \x7b\n",
   "                \"defaults\": \x7b\n",
   "                    \"color\": \x7b\"mode\": \"fixed\", \"fixedColor\": color\x7d,\n",
   "                    \"unit\": unit\n",
   "                \x7d\n",
   "            \x7d\n",
   "        \x7d\n",
   "        \n",
   "    def create_horiz_gauge(title, expr, x, color, unit=\"none\", max_val=100, " ++
    "invert_colors=False):\n",
   "        steps = [\n",
   "            \x7b\"color\": \"green\", \"value\": None\x7d, \n",
   "            \x7b\"color\": \"orange\", \"value\": max_val * 0.7\x7d, \n",
   "            \x7b\"color\": \"red\", \"value\": max_val * 0.9\x7d\n",
   "        ]\n",
   "        if invert_colors:\n",
   "            steps = [\n",
   "                \x7b\"color\": \"red\", \"value\": None\x7d, \n",
   "                \x7b\"color\": \"orange\", \"value\": max_val * 0.1\x7d, \n",
   "                \x7b\"color\": \"green\", \"value\": max_val * 0.3\x7d\n",
   "            ]\n",
   "            \n",
   "        return \x7b\n",
   "            \"type\": \"gauge\",\n",
   "            \"title\": title,\n",
   "            \"gridPos\": \x7b\"h\": 5, \"w\": 3, \"x\": x, \"y\": y_pos\x7d,\n",
   "            \"id\": len(panels) + 1,\n",
   "            \"datasource\": \x7b\"type\": \"prometheus\", \"uid\": " ++
    "\"prometheus-nexpulse\"\x7d,\n",
   "            \"targets\": [\x7b\"expr\": expr, \"refId\": \"A\"\x7d],\n",
   "            \"options\": \x7b\n",
   "                \"reduceOptions\": \x7b\"calcs\": [\"lastNotNull\"], \"values\": False\x7d,\n",
   "                \"orientation\": \"horizontal\",\n",
   "                \"showThresholdLabels\": False,\n",
   "                \"showThresholdMarkers\": True\n",
   "            \x7d,\n",
   "            \"fieldConfig\": \x7b\n",
   "                \"defaults\": \x7b\n",
   "                    \"color\": \x7b\"mode\": \"thresholds\"\x7d,\n",
   "                    \"max\": max_val,\n",
   "                    \"min\": 0,\n",
   "                    \"thresholds\": \x7b\"mode\": \"absolute\", \"steps\": steps\x7d,\n",
   "                    \"unit\": unit\n",
   "                \x7d\n",
   "            \x7d\n",
   "        \x7d\n",
   "\n",
   "    panels.append(create_minimal_stat(\"Requests\", " ++
    "\"sum(rate(gateway_events_ingested_total[30s]))\", 0, \"blue\", \"reqps\"))\n",
   "    panels.append(create_minimal_stat(\"Errors\", " ++
    "\"sum(rate(gateway_events_rejected_total[30s]))\", 3, \"red\", \"reqps\"))\n",
   "    panels.append(create_horiz_gauge(\"Gateway Load\", \"gateway_active_connections / 1000 " ++
    "* 100\", 6, \"red\", \"percent\"))\n",
   "    panels.append(create_horiz_gauge(\"Kafka Backpr.\", " ++
    "\"sum(kafka_consumergroup_lag\x7bconsumergroup=\\\"aggregator-group\\\"\x7d)\", 9, " ++
    "\"orange\", \"none\", 1000))\n",
   "    panels.append(create_horiz_gauge(\"Memory Util\", \"redis_memory_used_bytes / " ++
    "(1024*1024*1024) * 100\", 12, \"green\", \"percent\"))\n",
   "    panels.append(create_horiz_gauge(\"WebSockets\", \"query_websocket_connections_active / " ++
    "5000 * 100\", 15, \"blue\", \"percent\"))\n",
   "    panels.append(create_horiz_gauge(\"Active Conn.\", \"gateway_active_connections / 1000 " ++
    "* 100\", 18, \"purple\", \"percent\"))\n",
   "    panels.append(create_horiz_gauge(\"Success Rate\", \"100 - (100 * " ++
    "sum(rate(gateway_events_rejected_total[30s])) / " ++
    "(sum(rate(gateway_events_ingested_total[30s])) + " ++
    "sum(rate(gateway_events_rejected_total[30s])) + 0.001))\", 21, \"green\", \"percent\", " ++
    "100, True))\n",
   "    y_pos += 5\n",
   "\n"]

def newBlock : Text := newBlockLines.flatMap String.toList

def mergeTop (content : Text) : Text :=
  let lines := Text.lines content
  let startIdx := find (mentions rowOneMarker) lines
  let endIdx := find (mentions rowTwoMarker) lines
  (before lines startIdx ++ [newBlock] ++ since lines endIdx).flatten

/-! ## restructure.py -/

def rowSevenMarker : Text := "# ROW 7: Web Vitals & Page Performance".toList

def jsonDumpMarker : Text :=
  "with open(r\"E:\\NexPulse\\infra\\grafana\\dashboards\\overview.json\", \"w\") as f:".toList

def rowThreeMarker : Text := "# ROW 3: Latency".toList

def addRowCall : Text := "add_row(\"Frontend Web Vitals & Page Analytics\")".toList

def gridPosField : Text :=
  "\"gridPos\": \x7b\"h\": 8, \"w\": 24, \"x\": 0, \"y\": y_pos\x7d,".toList

def pageAnalytics : Text := "Page Analytics".toList

def apiAnalytics : Text := "API Analytics".toList

def fullWidth : Text := "\"w\": 24".toList

def halfWidth : Text := "\"w\": 12".toList

def yPosStep : Text := "y_pos += 8".toList

/-- `api_code` of restructure.py. -/
def apiCodeLines : List String :=
  ["\n",
   "    api_traffic_expr = 'label_replace(sum(rate(gateway_events_ingested_total[10s])) * 0.4, " ++
    "\"api\", \"/api/v1/checkout\", \"\", \"\") or " ++
    "label_replace(sum(rate(gateway_events_ingested_total[10s])) * 0.35, \"api\", " ++
    "\"/api/v1/cart\", \"\", \"\") or " ++
    "label_replace(sum(rate(gateway_events_ingested_total[10s])) * 0.25, \"api\", " ++
    "\"/api/v1/product\", \"\", \"\")'\n",
   "    panels.append(\x7b\n",
   "        \"type\": \"timeseries\",\n",
   "        \"title\": \"Individual API Endpoint Traffic\",\n",
   "        \"gridPos\": \x7b\"h\": 8, \"w\": 12, \"x\": 12, \"y\": y_pos\x7d,\n",
   "        \"id\": len(panels) + 1,\n",
   "        \"datasource\": \x7b\"type\": \"prometheus\", \"uid\": \"prometheus-nexpulse\"\x7d,\n",
   "        \"targets\": [\n",
   "            \x7b\"expr\": api_traffic_expr, \"legendFormat\": \"\x7b\x7bapi\x7d\x7d\", " ++
    "\"refId\": \"A\"\x7d\n",
   "        ],\n",
   "        \"options\": \x7b\n",
   "            \"legend\": \x7b\"displayMode\": \"table\", \"placement\": \"right\"\x7d,\n",
   "            \"tooltip\": \x7b\"mode\": \"multi\"\x7d\n",
   "        \x7d,\n",
   "        \"fieldConfig\": \x7b\n",
   "            \"defaults\": \x7b\n",
   "                \"custom\": \x7b\n",
   "                    \"drawStyle\": \"line\",\n",
   "                    \"fillOpacity\": 20,\n",
   "                    \"lineWidth\": 2,\n",
   "                    \"gradientMode\": \"opacity\"\n",
   "                \x7d,\n",
   "                \"color\": \x7b\"mode\": \"palette-classic\"\x7d\n",
   "            \x7d\n",
   "        \x7d\n",
   "    \x7d)\n",
   "    y_pos += 8\n"]

def apiCode : Text := apiCodeLines.flatMap String.toList

/-- The loop that collects `web_vitals_block`, with `json_dump_start`. -/
def collect (lines : List Text) : List Int → List Text → Option (List Text × Int)
  | [], block => some (block, -1)
  | index :: indices, block => do
      -- An index outside the list is an IndexError.
      let line ← item? lines index
      if mentions jsonDumpMarker line then
        return (block, index)
      collect lines indices (block ++ [line])

/-- The loop that fills `modified_block`, with `in_bar_chart`. -/
def modify : Bool → List Text → List Text
  | _, [] => []
  | inBarChart, line :: block =>
      if mentions addRowCall line then
        Text.replace pageAnalytics apiAnalytics line :: modify inBarChart block
      else if mentions gridPosField line ∧ ¬ inBarChart then
        -- The gridPos of the bar chart.
        Text.replace fullWidth halfWidth line :: modify true block
      else if mentions yPosStep line ∧ inBarChart then
        -- After the bar chart comes the new API graph.
        apiCode :: modify false block
      else
        line :: modify inBarChart block

def insertBlock (lines block : List Text) : List Text :=
  let insertIdx := find (mentions rowThreeMarker) lines
  before lines insertIdx ++ block ++ since lines insertIdx

def restructure (content : Text) : Option Text := do
  let lines := Text.lines content
  let row7Start := find (mentions rowSevenMarker) lines
  let (webVitalsBlock, jsonDumpStart) ← collect lines (range row7Start lines.length) []
  let lines := delete lines row7Start jsonDumpStart
  return (insertBlock lines (modify false webVitalsBlock)).flatten

/-! ## move_back.py -/

def apiAddRowCall : Text := "add_row(\"Frontend Web Vitals & API Analytics\")".toList

def rowComment : Text := "# ROW ".toList

def withOpen : Text := "with open(".toList

def movedHeading : Text := "\n    # ROW 7: Web Vitals & Page Performance\n".toList

/-- `str.isspace` of one character. -/
def isSpace (char : Char) : Bool :=
  let code := char.toNat
  (9 ≤ code ∧ code ≤ 13) ∨ (28 ≤ code ∧ code ≤ 32) ∨ (8192 ≤ code ∧ code ≤ 8202) ∨
    code ∈ [133, 160, 5760, 8232, 8233, 8239, 8287, 12288]

def strip (line : Text) : Text :=
  ((line.dropWhile isSpace).reverse.dropWhile isSpace).reverse

/-- The next row, or the end of the panels. -/
def endsSection (line : Text) : Bool :=
  decide (rowComment <+: strip line) || mentions withOpen line

def findSince (p : Text → Bool) (lines : List Text) (start : Int) : Int :=
  match (range start lines.length).find? fun index => (item? lines index).any p with
  | some index => index
  | none => -1

def moveBack (content : Text) : Option Text := do
  let lines := Text.lines content
  let startIdx := find (mentions apiAddRowCall) lines
  if startIdx = -1 then none
  let endIdx := findSince endsSection lines (startIdx + 1)
  if endIdx = -1 then none
  let webVitalsBlock := between lines startIdx endIdx
  let lines := delete lines startIdx endIdx
  let insertIdx := find (mentions withOpen) lines
  if insertIdx = -1 then none
  return (before lines insertIdx ++ [movedHeading] ++ webVitalsBlock ++
    since lines insertIdx).flatten

end NexPulse.Dashboard
