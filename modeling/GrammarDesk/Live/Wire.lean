import GrammarDesk.Json
import GrammarDesk.Live.Report

/-! Segments and reports as JSON. -/
namespace GrammarDesk

def Segment.toJson (segment : Segment) : Json :=
  .obj [("start", .nat segment.span.start), ("end", .nat segment.span.stop),
    ("matched", .bool segment.matched)]

def Report.toJson (report : Report) : Json :=
  .obj [("segments", .arr (report.segments.map Segment.toJson))]

end GrammarDesk
