/-!
The style sheet of a report, which travels inside the document.
-/
namespace IrSurvey.Report

/-- The rules: a selector and its declarations. -/
def styleRules : List (String × List String) := [
  ("body", [
    "font-family: 'Segoe UI', Tahoma, Geneva, Verdana, sans-serif", "margin: 0", "padding: 20px",
    "background: #f5f5f5"]),
  (".container", [
    "max-width: 1400px", "margin: 0 auto", "background: #fff", "padding: 30px",
    "border-radius: 10px", "box-shadow: 0 2px 10px rgba(0,0,0,0.1)"]),
  ("h1", ["color: #2c3e50", "border-bottom: 3px solid #3498db", "padding-bottom: 10px"]),
  ("h2", ["color: #34495e", "margin-top: 30px"]),
  (".comparison", [
    "display: grid", "grid-template-columns: 1fr 1fr", "gap: 20px", "margin: 20px 0"]),
  (".code-block", [
    "background: #2d2d2d", "color: #f8f8f2", "padding: 15px", "border-radius: 5px",
    "overflow-x: auto", "font-family: 'Consolas', 'Monaco', monospace", "font-size: 14px",
    "line-height: 1.5"]),
  (".original", ["border-left: 4px solid #27ae60"]),
  (".obfuscated", ["border-left: 4px solid #e74c3c"]),
  (".metrics", [
    "display: grid", "grid-template-columns: repeat(auto-fit, minmax(200px, 1fr))", "gap: 15px",
    "margin: 20px 0"]),
  (".metric-card", [
    "background: linear-gradient(135deg, #667eea 0%, #764ba2 100%)", "color: #fff",
    "padding: 20px", "border-radius: 8px", "text-align: center"]),
  (".metric-value", ["font-size: 32px", "font-weight: bold", "margin: 10px 0"]),
  (".metric-label", ["font-size: 14px", "opacity: 0.9"]),
  (".techniques", ["background: #ecf0f1", "padding: 20px", "border-radius: 5px", "margin: 20px 0"]),
  (".technique", [
    "padding: 10px", "margin: 5px 0", "background: #fff", "border-left: 3px solid #3498db",
    "border-radius: 3px"]),
  (".highlight", ["background: #fff3cd", "padding: 2px 4px", "border-radius: 3px"]),
  (".summary", [
    "background: #e8f5e9", "padding: 20px", "border-radius: 5px", "border-left: 4px solid #4caf50",
    "margin: 20px 0"]),
  ("table.complexity", ["border-collapse: collapse", "width: 100%"]),
  ("table.complexity th, table.complexity td", [
    "border: 1px solid #ddd", "padding: 8px", "text-align: left"]),
  ("table.complexity th", ["background: #34495e", "color: #fff"]),
  ("tr.obfuscated-row td", ["background: #fdecea"]),
  ("pre", ["margin: 0", "white-space: pre-wrap", "word-wrap: break-word"]),
  ("footer", ["margin-top: 30px", "font-size: 12px", "color: #7f8c8d"])]

/-- A rule stands on one line. -/
def ruleText (rule : String × List String) : String :=
  rule.1 ++ " \x7b " ++ String.join (rule.2.map (· ++ "; ")) ++ "\x7d\n"

def style : String :=
  "\n" ++ String.join (styleRules.map ruleText)

end IrSurvey.Report
