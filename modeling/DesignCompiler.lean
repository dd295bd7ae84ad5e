import DesignCompiler.Color
import DesignCompiler.ComponentName
import DesignCompiler.Drawing.Walk
import DesignCompiler.Extraction
import DesignCompiler.Extraction.Log
import DesignCompiler.FontWeight
import DesignCompiler.Generate
import DesignCompiler.Json.Reader
import DesignCompiler.Json.Writer
import DesignCompiler.Layout.RoundTrip
import DesignCompiler.Number.Dimension
import DesignCompiler.Primitive
import DesignCompiler.Proofs.Color.Accuracy
import DesignCompiler.Proofs.Color.Hexadecimal
import DesignCompiler.Proofs.Drawing.Worklist
import DesignCompiler.Proofs.Extraction.Budget
import DesignCompiler.Proofs.Extraction.Choice
import DesignCompiler.Proofs.Extraction.Colors
import DesignCompiler.Proofs.Extraction.Faults
import DesignCompiler.Proofs.Extraction.Pages
import DesignCompiler.Proofs.Extraction.Positions
import DesignCompiler.Proofs.Extraction.Selection
import DesignCompiler.Proofs.Extraction.Translation
import DesignCompiler.Proofs.Extraction.WellFormed
import DesignCompiler.Proofs.Generate.ComponentName
import DesignCompiler.Proofs.Generate.Drawn
import DesignCompiler.Proofs.Generate.Fence
import DesignCompiler.Proofs.Generate.Inlining
import DesignCompiler.Proofs.Generate.Names
import DesignCompiler.Proofs.Generate.Relevance
import DesignCompiler.Proofs.Generate.Together
import DesignCompiler.Proofs.Json.Ending
import DesignCompiler.Proofs.Json.Extent
import DesignCompiler.Proofs.Json.Inline
import DesignCompiler.Proofs.Json.Number
import DesignCompiler.Proofs.Json.Quoted
import DesignCompiler.Proofs.Json.RoundTrip
import DesignCompiler.Proofs.Layout.Layer
import DesignCompiler.Proofs.Layout.RoundTrip
import DesignCompiler.Proofs.Layout.Written
import DesignCompiler.Proofs.Lexical.Compose
import DesignCompiler.Proofs.Lexical.Generated
import DesignCompiler.Proofs.Lexical.Literal
import DesignCompiler.Proofs.Lexical.React
import DesignCompiler.Proofs.Lexical.Scanner
import DesignCompiler.Proofs.Lexical.Source
import DesignCompiler.Proofs.Lexical.SwiftUI
import DesignCompiler.Proofs.Number.Decimal
import DesignCompiler.Proofs.Number.Dimension
import DesignCompiler.Proofs.Number.Exact
import DesignCompiler.Proofs.Number.Hundredths
import DesignCompiler.Proofs.Number.Nearest
import DesignCompiler.Proofs.Number.Shortest
import DesignCompiler.Proofs.Number.Signed
import DesignCompiler.Proofs.Number.Whole
import DesignCompiler.Proofs.Render.Depth
import DesignCompiler.Proofs.Render.Enclosure
import DesignCompiler.Proofs.Render.Fallback
import DesignCompiler.Proofs.Render.FontWeight
import DesignCompiler.Proofs.Render.Guarded
import DesignCompiler.Proofs.Render.Literal
import DesignCompiler.Proofs.Render.OneLine
import DesignCompiler.Proofs.Render.Style
import DesignCompiler.Proofs.Render.Tree
import DesignCompiler.Proofs.Render.Threaded
import DesignCompiler.Proofs.Render.Uniform
import DesignCompiler.Proofs.Schema.Form
import DesignCompiler.Proofs.Service.Address
import DesignCompiler.Proofs.Service.FileKey
import DesignCompiler.Proofs.Service.Limit
import DesignCompiler.Proofs.Service.Listing
import DesignCompiler.Proofs.Service.Markdown
import DesignCompiler.Proofs.Service.Pages
import DesignCompiler.Proofs.Service.Report
import DesignCompiler.Proofs.Service.Request
import DesignCompiler.Proofs.Text.Digit
import DesignCompiler.Proofs.Text.Fence
import DesignCompiler.Proofs.Text.Lines
import DesignCompiler.Proofs.Trace.Style
import DesignCompiler.Proofs.Trace.Tree
import DesignCompiler.Service.Tool
