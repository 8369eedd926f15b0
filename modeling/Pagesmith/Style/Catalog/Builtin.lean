import Pagesmith.Style.Catalog

/-!
# The built-in catalog

The presets, animations and themes that every project can refer to.
-/

namespace Pagesmith.Style.Catalog

def builtinStyles : NamedTrees := [
  ("cards-modern", [
    .block "base" [
      .literal "layout" "flex column",
      .literal "radius" "15px",
      .literal "shadow" "medium",
      .literal "padding" "20px",
      .literal "background" "#ffffff",
      .literal "transition" "all 0.3s ease"],
    .block "states" [
      .block "hover" [
        .literal "transform" "translateY(-5px)",
        .literal "shadow" "large"]]]),
  ("cards-glassmorphic", [
    .block "base" [
      .literal "background" "rgba(255, 255, 255, 0.1)",
      .literal "backdrop-filter" "blur(10px)",
      .literal "border" "1px solid rgba(255, 255, 255, 0.2)",
      .literal "radius" "20px",
      .literal "padding" "25px",
      .literal "shadow" "0 8px 32px rgba(0, 0, 0, 0.1)"]]),
  ("cards-neon", [
    .block "base" [
      .literal "background" "#1a1a1a",
      .literal "border" "2px solid #ff00ff",
      .literal "radius" "10px",
      .literal "padding" "20px",
      .literal "box-shadow" "0 0 15px #ff00ff",
      .literal "color" "#ffffff"],
    .block "states" [
      .block "hover" [
        .literal "box-shadow" "0 0 30px #ff00ff"]]]),
  ("buttons-primary", [
    .block "base" [
      .literal "padding" "12px 24px",
      .literal "radius" "8px",
      .literal "background" "var(--color-primary)",
      .literal "color" "#ffffff",
      .literal "border" "none",
      .literal "transition" "all 0.3s ease"],
    .block "states" [
      .block "hover" [
        .literal "brightness" "1.1",
        .literal "transform" "scale(1.05)"]]]),
  ("buttons-gradient", [
    .block "base" [
      .literal "padding" "15px 30px",
      .literal "radius" "25px",
      .literal "background" "linear-gradient(45deg, #ff6b6b, #feca57)",
      .literal "color" "#ffffff",
      .literal "border" "none",
      .literal "transition" "all 0.3s ease"],
    .block "states" [
      .block "hover" [
        .literal "transform" "translateY(-2px)",
        .literal "box-shadow" "0 5px 15px rgba(255, 107, 107, 0.4)"]]]),
  ("buttons-outline", [
    .block "base" [
      .literal "padding" "10px 20px",
      .literal "radius" "6px",
      .literal "border" "2px solid var(--color-primary)",
      .literal "color" "var(--color-primary)",
      .literal "background" "transparent",
      .literal "transition" "all 0.3s ease"],
    .block "states" [
      .block "hover" [
        .literal "background" "var(--color-primary)",
        .literal "color" "#ffffff"]]]),
  ("forms-modern", [
    .block "input" [
      .block "base" [
        .literal "padding" "12px 16px",
        .literal "radius" "8px",
        .literal "border" "2px solid #e0e0e0",
        .literal "background" "#ffffff",
        .literal "transition" "all 0.3s ease"],
      .block "states" [
        .block "focus" [
          .literal "border" "2px solid var(--color-primary)",
          .literal "box-shadow" "0 0 0 4px rgba(var(--color-primary-rgb), 0.1)"]]],
    .block "select" [
      .block "base" [
        .literal "padding" "12px 16px",
        .literal "radius" "8px",
        .literal "border" "2px solid #e0e0e0",
        .literal "background" "#ffffff",
        .literal "appearance" "none"]]]),
  ("forms-floating", [
    .block "&__group" [
      .block "base" [
        .literal "position" "relative",
        .literal "margin" "20px 0"]],
    .block "label" [
      .block "base" [
        .literal "position" "absolute",
        .literal "left" "16px",
        .literal "top" "50%",
        .literal "transform" "translateY(-50%)",
        .literal "transition" "all 0.3s ease",
        .literal "color" "#666"],
      .block "states" [
        .block "focus" [
          .literal "top" "0",
          .literal "transform" "translateY(-100%) scale(0.8)",
          .literal "color" "var(--color-primary)"]]]]),
  ("navigation-navbar", [
    .block "base" [
      .literal "layout" "flex row",
      .literal "align" "center",
      .literal "justify" "space-between",
      .literal "padding" "1rem 2rem",
      .literal "background" "#ffffff",
      .literal "shadow" "small"]]),
  ("navigation-sidebar", [
    .block "base" [
      .literal "layout" "flex column",
      .literal "width" "250px",
      .literal "height" "100vh",
      .literal "background" "#ffffff",
      .literal "padding" "2rem",
      .literal "shadow" "medium"]]),
  ("navigation-tabs", [
    .block "base" [
      .literal "layout" "flex row",
      .literal "gap" "10px",
      .literal "padding" "10px",
      .literal "border-bottom" "2px solid #eee"],
    .block "&__item" [
      .block "base" [
        .literal "padding" "10px 20px",
        .literal "radius" "8px 8px 0 0",
        .literal "color" "#666",
        .literal "transition" "all 0.3s ease"],
      .block "states" [
        .block "active" [
          .literal "color" "var(--color-primary)",
          .literal "border-bottom" "2px solid var(--color-primary)"]]]]),
  ("notifications-toast", [
    .block "base" [
      .literal "layout" "flex row",
      .literal "align" "center",
      .literal "padding" "16px",
      .literal "radius" "8px",
      .literal "background" "#ffffff",
      .literal "shadow" "medium",
      .block "animation" [
        .literal "type" "slide-in",
        .literal "duration" "0.5s"]],
    .block "&--success" [
      .literal "background" "#4caf50",
      .literal "color" "#ffffff"],
    .block "&--error" [
      .literal "background" "#f44336",
      .literal "color" "#ffffff"]]),
  ("notifications-alert", [
    .block "base" [
      .literal "padding" "15px 20px",
      .literal "radius" "6px",
      .literal "margin" "10px 0"],
    .block "&--info" [
      .literal "background" "#e3f2fd",
      .literal "color" "#1976d2",
      .literal "border" "1px solid #1976d2"],
    .block "&--warning" [
      .literal "background" "#fff3e0",
      .literal "color" "#f57c00",
      .literal "border" "1px solid #f57c00"]]),
  ("media-avatar", [
    .block "base" [
      .literal "radius" "50%",
      .literal "width" "40px",
      .literal "height" "40px",
      .literal "object-fit" "cover"],
    .block "sizes" [
      .block "small" [
        .literal "width" "32px",
        .literal "height" "32px"],
      .block "large" [
        .literal "width" "64px",
        .literal "height" "64px"]]]),
  ("media-gallery", [
    .block "base" [
      .literal "layout" "grid",
      .literal "gap" "20px",
      .literal "grid-template-columns" "repeat(auto-fit, minmax(200px, 1fr))"],
    .block "&__item" [
      .block "base" [
        .literal "radius" "10px",
        .literal "overflow" "hidden",
        .literal "transition" "all 0.3s ease"],
      .block "states" [
        .block "hover" [
          .literal "transform" "scale(1.05)"]]]]),
  ("dataDisplay-badge", [
    .block "base" [
      .literal "padding" "4px 8px",
      .literal "radius" "12px",
      .literal "font-size" "12px"],
    .block "&--active" [
      .literal "background" "#4caf50",
      .literal "color" "#ffffff"],
    .block "&--pending" [
      .literal "background" "#ff9800",
      .literal "color" "#ffffff"],
    .block "&--inactive" [
      .literal "background" "#f44336",
      .literal "color" "#ffffff"]]),
  ("dataDisplay-progress", [
    .block "base" [
      .literal "width" "100%",
      .literal "height" "8px",
      .literal "background" "#e0e0e0",
      .literal "radius" "4px",
      .literal "overflow" "hidden"],
    .block "&__bar" [
      .block "base" [
        .literal "height" "100%",
        .literal "background" "var(--color-primary)",
        .literal "transition" "width 0.3s ease"]]]),
  ("effects-glassmorphism", [
    .block "base" [
      .literal "background" "rgba(255, 255, 255, 0.1)",
      .literal "backdrop-filter" "blur(10px)",
      .literal "border" "1px solid rgba(255, 255, 255, 0.2)"]]),
  ("effects-neumorphism", [
    .block "base" [
      .literal "background" "#e0e0e0",
      .literal "box-shadow" "8px 8px 16px #bebebe, -8px -8px 16px #ffffff"]]),
  ("effects-gradient", [
    .block "&--rainbow" [
      .literal "background" "linear-gradient(45deg, #ff6b6b, #feca57, #48dbfb, #ff6b6b)",
      .literal "background-size" "400% 400%",
      .literal "animation" "gradient 15s ease infinite"],
    .block "&--neon" [
      .literal "color" "#fff",
      .literal "text-shadow" "0 0 10px #fff, 0 0 20px #fff, 0 0 30px #0ff"]])]

def builtinAnimations : NamedTrees := [
  ("slide-in", [
    .block "from" [
      .literal "transform" "translateX(-100%)",
      .literal "opacity" "0"],
    .block "to" [
      .literal "transform" "translateX(0)",
      .literal "opacity" "1"]]),
  ("fade-in", [
    .block "from" [
      .literal "opacity" "0"],
    .block "to" [
      .literal "opacity" "1"]]),
  ("bounce", [
    .block "0%" [
      .literal "transform" "scale(1)"],
    .block "50%" [
      .literal "transform" "scale(1.1)"],
    .block "100%" [
      .literal "transform" "scale(1)"]]),
  ("pulse", [
    .block "0%" [
      .literal "transform" "scale(1)"],
    .block "50%" [
      .literal "transform" "scale(1.05)"],
    .block "100%" [
      .literal "transform" "scale(1)"]]),
  ("gradient", [
    .block "0%" [
      .literal "background-position" "0% 50%"],
    .block "50%" [
      .literal "background-position" "100% 50%"],
    .block "100%" [
      .literal "background-position" "0% 50%"]]),
  ("float", [
    .block "0%" [
      .literal "transform" "translateY(0)"],
    .block "50%" [
      .literal "transform" "translateY(-10px)"],
    .block "100%" [
      .literal "transform" "translateY(0)"]]),
  ("shake", [
    .block "0%, 100%" [
      .literal "transform" "translateX(0)"],
    .block "10%, 30%, 50%, 70%, 90%" [
      .literal "transform" "translateX(-5px)"],
    .block "20%, 40%, 60%, 80%" [
      .literal "transform" "translateX(5px)"]]),
  ("rotate-360", [
    .block "0%" [
      .literal "transform" "rotate(0deg)"],
    .block "100%" [
      .literal "transform" "rotate(360deg)"]]),
  ("pop", [
    .block "0%" [
      .literal "transform" "scale(0)"],
    .block "80%" [
      .literal "transform" "scale(1.2)"],
    .block "100%" [
      .literal "transform" "scale(1)"]]),
  ("slide-up", [
    .block "from" [
      .literal "transform" "translateY(20px)",
      .literal "opacity" "0"],
    .block "to" [
      .literal "transform" "translateY(0)",
      .literal "opacity" "1"]]),
  ("slide-down", [
    .block "from" [
      .literal "transform" "translateY(-20px)",
      .literal "opacity" "0"],
    .block "to" [
      .literal "transform" "translateY(0)",
      .literal "opacity" "1"]]),
  ("slide-left", [
    .block "from" [
      .literal "transform" "translateX(20px)",
      .literal "opacity" "0"],
    .block "to" [
      .literal "transform" "translateX(0)",
      .literal "opacity" "1"]]),
  ("slide-right", [
    .block "from" [
      .literal "transform" "translateX(-20px)",
      .literal "opacity" "0"],
    .block "to" [
      .literal "transform" "translateX(0)",
      .literal "opacity" "1"]]),
  ("flip", [
    .block "0%" [
      .literal "transform" "perspective(400px) rotateY(0)"],
    .block "100%" [
      .literal "transform" "perspective(400px) rotateY(360deg)"]]),
  ("swing", [
    .block "20%" [
      .literal "transform" "rotate(15deg)"],
    .block "40%" [
      .literal "transform" "rotate(-10deg)"],
    .block "60%" [
      .literal "transform" "rotate(5deg)"],
    .block "80%" [
      .literal "transform" "rotate(-5deg)"],
    .block "100%" [
      .literal "transform" "rotate(0deg)"]])]

def builtinThemes : NamedTrees := [
  ("light", [
    .block "colors" [
      .literal "primary" "#007bff",
      .literal "secondary" "#6c757d",
      .literal "success" "#28a745",
      .literal "danger" "#dc3545",
      .literal "warning" "#ffc107",
      .literal "info" "#17a2b8",
      .literal "background" "#ffffff",
      .literal "surface" "#f8f9fa",
      .literal "text" "#212529"]]),
  ("dark", [
    .block "colors" [
      .literal "primary" "#4dabf7",
      .literal "secondary" "#868e96",
      .literal "success" "#40c057",
      .literal "danger" "#fa5252",
      .literal "warning" "#ffd43b",
      .literal "info" "#15aabf",
      .literal "background" "#1a1a1a",
      .literal "surface" "#2d2d2d",
      .literal "text" "#f8f9fa"]]),
  ("nature", [
    .block "colors" [
      .literal "primary" "#2ecc71",
      .literal "secondary" "#95a5a6",
      .literal "accent1" "#f1c40f",
      .literal "accent2" "#e67e22",
      .literal "background" "#ecf0f1",
      .literal "text" "#2c3e50"]]),
  ("ocean", [
    .block "colors" [
      .literal "primary" "#3498db",
      .literal "secondary" "#2c3e50",
      .literal "accent1" "#1abc9c",
      .literal "accent2" "#16a085",
      .literal "background" "#ecf0f1",
      .literal "text" "#2c3e50"]]),
  ("sunset", [
    .block "colors" [
      .literal "primary" "#ff7e5f",
      .literal "secondary" "#feb47b",
      .literal "accent1" "#ff5e62",
      .literal "accent2" "#ff9966",
      .literal "background" "#fff9f5",
      .literal "text" "#2c3e50"]]),
  ("forest", [
    .block "colors" [
      .literal "primary" "#2ecc71",
      .literal "secondary" "#27ae60",
      .literal "accent1" "#f1c40f",
      .literal "accent2" "#e67e22",
      .literal "background" "#f5f9f5",
      .literal "text" "#2c3e50"]]),
  ("midnight", [
    .block "colors" [
      .literal "primary" "#2c3e50",
      .literal "secondary" "#34495e",
      .literal "accent1" "#3498db",
      .literal "accent2" "#2980b9",
      .literal "background" "#1a1a1a",
      .literal "text" "#ecf0f1"]]),
  ("candy", [
    .block "colors" [
      .literal "primary" "#ff69b4",
      .literal "secondary" "#ff1493",
      .literal "accent1" "#ff69b4",
      .literal "accent2" "#da70d6",
      .literal "background" "#fff0f5",
      .literal "text" "#4a4a4a"]]),
  ("cyber", [
    .block "colors" [
      .literal "primary" "#00ff00",
      .literal "secondary" "#00ffff",
      .literal "accent1" "#ff00ff",
      .literal "accent2" "#ffff00",
      .literal "background" "#000000",
      .literal "text" "#ffffff"]]),
  ("pastel", [
    .block "colors" [
      .literal "primary" "#ffb3ba",
      .literal "secondary" "#baffc9",
      .literal "accent1" "#bae1ff",
      .literal "accent2" "#ffffba",
      .literal "background" "#ffffff",
      .literal "text" "#4a4a4a"]]),
  ("autumn", [
    .block "colors" [
      .literal "primary" "#d35400",
      .literal "secondary" "#e67e22",
      .literal "accent1" "#f39c12",
      .literal "accent2" "#f1c40f",
      .literal "background" "#fdf6e3",
      .literal "text" "#2c3e50"]]),
  ("winter", [
    .block "colors" [
      .literal "primary" "#3498db",
      .literal "secondary" "#2980b9",
      .literal "accent1" "#95a5a6",
      .literal "accent2" "#bdc3c7",
      .literal "background" "#ecf0f1",
      .literal "text" "#2c3e50"]])]

def builtin : Catalog := ⟨builtinStyles, builtinAnimations, builtinThemes⟩

end Pagesmith.Style.Catalog
