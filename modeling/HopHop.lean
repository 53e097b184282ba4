import HopHop.StringLitExact
import HopHop.LexerFollowed
import HopHop.CommentRanges
import HopHop.CTFEInt
import HopHop.CTFELiteral
import HopHop.Mir
import HopHop.Steps
import HopHop.MirEnv
import HopHop.MirExec
import HopHop.MirBounds
import HopHop.MirSafe
import HopHop.MirProgramSafe
import HopHop.Ast
import HopHop.PostfixCode
import HopHop.MirBuild
import HopHop.MirExprShape
import HopHop.MirExprBuild
import HopHop.MirExprStep
import HopHop.MirExprChunk
import HopHop.FmtShortVar
import HopHop.Outcome
import HopHop.Parser
import HopHop.ParserType
import HopHop.ParserExpr
import HopHop.ParserStmt
import HopHop.ParserDecl
import HopHop.NodeChain
import HopHop.NodeForest
import HopHop.ParserLogic
import HopHop.ParserTypeTree
import HopHop.ParserExprTree
import HopHop.ParserListTree
import HopHop.ParserStmtTree
import HopHop.ParserDeclTree
import HopHop.NodeTree
import HopHop.ParserFileTree
import HopHop.ExprTree
import HopHop.ParserRun
import HopHop.ParserTypeRun
import HopHop.ParserExprRun
import HopHop.ParserPrecedence
import HopHop.TypeTable
import HopHop.TypeShape
import HopHop.TypeAssign
import HopHop.PointerAssign
import HopHop.TypeIntern
import HopHop.TypeSubst
import HopHop.Interning
import HopHop.TypeInvariant
import HopHop.TypeMakes
import HopHop.TypeNames
import HopHop.TypeAdmits
import HopHop.TypeSubstGood
import HopHop.TypeSubstRun
import HopHop.TypeCanonical
import HopHop.TypeResolve
import HopHop.TypeSignature
import HopHop.TypeTerm
import HopHop.TypeDenotes
import HopHop.TypeInterns
import HopHop.TypeInstance
import HopHop.TypeReads
import HopHop.TypeResolved
import HopHop.TypeResolvedParts
import HopHop.TypeResolvedLists
import HopHop.TypeResolvedFn
import HopHop.TypeResolveRun
import HopHop.TypeSignatureRead
import HopHop.TypeValueRead
import HopHop.TypeCompositional
import HopHop.CallArgs
import HopHop.RunningBest
import HopHop.CallTemplate
import HopHop.CallResolve
import HopHop.CallTypes
import HopHop.CallRank
import HopHop.CallSearch
import HopHop.CallRun
import HopHop.CallOrder
import HopHop.OverloadContract
import HopHop.CallHistory
import HopHop.CallCarried
import HopHop.CallIndependence
import HopHop.CallTarget
import HopHop.CallTargetRun
import HopHop.FloatFormat
import HopHop.ConstConvert
import HopHop.ConstExact
import HopHop.WasmUnit
import HopHop.WasmImports
import HopHop.Region
import HopHop.WasmLayout
import HopHop.WasmRun
import HopHop.WasmRegions
import HopHop.WasmModule
import HopHop.WasmIndices
import HopHop.WasmValid
import HopHop.WasmSpaces
import HopHop.WasmWellFormed
import HopHop.JoinedName
import HopHop.Package
import HopHop.PackageText
import HopHop.PackageNames
import HopHop.PackageLoad
import HopHop.PackageTable
import HopHop.PackageLoadSound
import HopHop.PackageLoadRuns
import HopHop.PackageLoadTargets
import HopHop.PackageLoadSucceeds
import HopHop.Format
import HopHop.FormatAgree
import HopHop.LinearMemory
import HopHop.WasmClosure
import HopHop.WasmClosureRun
import HopHop.FunctionDecls
import HopHop.FunctionDeclsOrder
import HopHop.FunctionDeclsIndependent
import HopHop.ChainWalk
import HopHop.NamedFields
import HopHop.EmbeddedCycles
import HopHop.CTypeRef
import HopHop.CTypeRefTables
import HopHop.CTypeRefParse
import HopHop.CTypeRefMeaning
import HopHop.CTypeRefStands
import HopHop.CTypeRefExact
import HopHop.CTypeRefUnique
import HopHop.CTypeRefFaithful
import HopHop.FmtParse
import HopHop.StringLitRune
import HopHop.Arena
import HopHop.ImportPath
import HopHop.MirStraight
import HopHop.MirJumpBound
import HopHop.MirTermination
import HopHop.Capacity
import HopHop.FloatEq
import HopHop.CTFEEquality
import HopHop.CTFECompare
import HopHop.Preserving
import HopHop.ParserNames
import HopHop.ParserQuiet
import HopHop.ParserQuietRun
import HopHop.ParserTypeParams
import HopHop.ParserSpeculation
import HopHop.ForHeader
import HopHop.Leb128
import HopHop.BuildTags
import HopHop.FormatInteger
import HopHop.FormatMeasured
import HopHop.MirStmtRewrite
import HopHop.WasmLeb
import HopHop.CodeSplice
import HopHop.MirAllocCount
import HopHop.MirBuilderBodies
import HopHop.CTFEEvalExpr
import HopHop.CTFEEvalStep
import HopHop.CTFEEvalTree
import HopHop.CallMapping
import HopHop.CallHonours
import HopHop.WasmReach
